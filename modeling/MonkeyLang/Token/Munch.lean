import MonkeyLang.Text.Alphabetic
import MonkeyLang.Token.Basic

/-!
# The token at the front of a text

`munch` takes the longest token off the front of a text that does not begin
with a gap.  Its main facts are that nothing is lost (`munch_append`) and that
something is taken (`text_munch_ne_nil`).
-/

namespace MonkeyLang

/-- The characters that may stand between tokens and are part of none. -/
def isGap (c : Char) : Bool :=
  c == ' ' || c == '\t' || c == '\n' || c == '\r'

/-- The characters of identifiers and reserved words. -/
def isLetter (c : Char) : Bool :=
  isAlphabetic c || c == '_'

/-- A token without a place: its kind, its literal, and the characters of the
text that it covers. -/
structure Lexeme where
  kind : Kind
  literal : String
  text : List Char
  deriving DecidableEq, Repr

namespace Lexeme

/-- A lexeme whose literal is the text that it covers. -/
def plain (kind : Kind) (text : List Char) : Lexeme :=
  ⟨kind, String.ofList text, text⟩

/-- The rest of a string whose opening quote has been read.  It goes up to the
next quote, or to the end of the text where there is none; nothing inside has a
special meaning. -/
def munchString (cs : List Char) : Lexeme × List Char :=
  let inside := cs.takeWhile (· ≠ '"')
  match cs.dropWhile (· ≠ '"') with
  | [] => (⟨.string, String.ofList inside, '"' :: inside⟩, [])
  | quote :: rest => (⟨.string, String.ofList inside, '"' :: inside ++ [quote]⟩, rest)

/-- The longest sign at the front of a text; a character that begins no token
is an illegal one. -/
def munchSign (c : Char) (cs : List Char) : Lexeme × List Char :=
  match Kind.ofSignEqual? c, cs with
  | some kind, '=' :: rest => (plain kind [c, '='], rest)
  | _, _ => (plain ((Kind.ofSign? c).getD .illegal) [c], cs)

/-- The token that begins with `c`, and what follows it. -/
def munch (c : Char) (cs : List Char) : Lexeme × List Char :=
  if c = '"' then munchString cs
  else if isLetter c then
    let word := c :: cs.takeWhile isLetter
    (plain (Kind.ofWord (String.ofList word)) word, cs.dropWhile isLetter)
  else if c.isDigit then
    (plain .integer (c :: cs.takeWhile Char.isDigit), cs.dropWhile Char.isDigit)
  else munchSign c cs

/-- A token and what follows it make up the text. -/
theorem munch_append (c : Char) (cs : List Char) :
    (munch c cs).1.text ++ (munch c cs).2 = c :: cs := by
  have dropWhile_eq (p : Char → Bool) :
      cs.takeWhile p ++ cs.dropWhile p = cs := List.takeWhile_append_dropWhile
  unfold munch
  split
  · next hc =>
    have hcs := dropWhile_eq (· ≠ '"')
    simp only [munchString]
    split
    · next h => rw [h] at hcs; simp_all
    · next h => rw [h] at hcs; simp_all
  · split
    · simp [plain, dropWhile_eq]
    · split
      · simp [plain, dropWhile_eq]
      · unfold munchSign
        split <;> simp [plain]

theorem text_munch_ne_nil (c : Char) (cs : List Char) :
    (munch c cs).1.text ≠ [] := by
  unfold munch
  split
  · simp only [munchString]
    split <;> simp
  · split
    · simp [plain]
    · split
      · simp [plain]
      · unfold munchSign
        split <;> simp [plain]

/-- What follows a token is shorter than the text. -/
theorem length_munch_lt (c : Char) (cs : List Char) :
    (munch c cs).2.length < cs.length + 1 := by
  have h := congrArg List.length (munch_append c cs)
  have hpos := List.length_pos_iff.mpr (text_munch_ne_nil c cs)
  simp only [List.length_append, List.length_cons] at h
  omega

end Lexeme

end MonkeyLang
