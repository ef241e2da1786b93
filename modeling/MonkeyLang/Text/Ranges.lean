/-!
# Sets of code points given by ranges

Unicode properties are tables of closed ranges of code points.  This module
says what membership in such a table means; the tables are in modules of
their own.
-/

namespace MonkeyLang

/-- A table of closed ranges of code points, in increasing order. -/
abbrev CodeRanges := List (Nat × Nat)

/-- Whether some range of the table covers the code point of `c`. -/
def CodeRanges.contains (table : CodeRanges) (c : Char) : Bool :=
  table.any fun range => range.1 ≤ c.toNat && c.toNat ≤ range.2

end MonkeyLang
