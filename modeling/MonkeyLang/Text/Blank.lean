/-!
# Blank characters

The Unicode property `White_Space`, by which a line counts as empty.
-/

namespace MonkeyLang

/-- Whether `c` has the Unicode property `White_Space`. -/
def isBlank (c : Char) : Bool :=
  let n := c.toNat
  (0x09 ≤ n && n ≤ 0x0d) || n == 0x20 || n == 0x85 || n == 0xa0 || n == 0x1680 ||
    (0x2000 ≤ n && n ≤ 0x200a) || n == 0x2028 || n == 0x2029 || n == 0x202f ||
    n == 0x205f || n == 0x3000

/-- Whether a text is empty once blank characters are taken off its ends. -/
def isBlankText (text : String) : Bool :=
  text.toList.all isBlank

end MonkeyLang
