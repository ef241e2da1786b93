import MonkeyLang.Text.Quoted
import MonkeyLang.Token.Munch

/-!
# The tokens of a text

A cursor is a place in a text and the characters from there on.  Each call of
`Cursor.next` passes over the gap before a token and gives that token; at the
end of the text it gives the end token, however often it is called.
`tokens` collects the tokens before the end.
-/

namespace MonkeyLang

/-- A place between two characters of a text: the bytes before it, and its
line and column, counted from 1. -/
structure Place where
  offset : Nat
  line : Nat
  column : Nat
  deriving DecidableEq, Repr, Inhabited

namespace Place

/-- The beginning of a text. -/
def origin : Place := ⟨0, 1, 1⟩

/-- The place behind one more character.  A line ends with a line feed. -/
def step (p : Place) (c : Char) : Place :=
  if c = '\n' then ⟨p.offset + c.utf8Size, p.line + 1, 1⟩
  else ⟨p.offset + c.utf8Size, p.line, p.column + 1⟩

/-- The place behind some more characters. -/
def after (p : Place) (cs : List Char) : Place :=
  cs.foldl step p

@[simp]
theorem after_nil (p : Place) : p.after [] = p := rfl

@[simp]
theorem after_cons (p : Place) (c : Char) (cs : List Char) :
    p.after (c :: cs) = (p.step c).after cs := rfl

theorem after_append (p : Place) (cs ds : List Char) :
    p.after (cs ++ ds) = (p.after cs).after ds :=
  List.foldl_append

end Place

/-- The token that a lexeme is when it is found at a place. -/
def Lexeme.at (l : Lexeme) (p : Place) : Token Position :=
  ⟨l.kind, l.literal, ⟨p.line, p.column, p.offset, (p.after l.text).offset⟩⟩

/-- The token that stands for the end of a text.  It covers one byte past the
last. -/
def Place.endToken (p : Place) : Token Position :=
  ⟨.eof, "", ⟨p.line, p.column, p.offset, p.offset + 1⟩⟩

/-- A place in a text, and the characters from there on. -/
structure Cursor where
  place : Place
  rest : List Char
  deriving DecidableEq, Repr

namespace Cursor

/-- The cursor at the beginning of a text. -/
def ofText (source : String) : Cursor :=
  ⟨Place.origin, source.toList⟩

/-- The next token at or after place `p` of a text that goes on with the given
characters, and the cursor behind it. -/
def nextFrom (p : Place) : List Char → Token Position × Cursor
  | [] => (p.endToken, ⟨p, []⟩)
  | c :: cs =>
    if isGap c then nextFrom (p.step c) cs
    else
      let found := Lexeme.munch c cs
      (found.1.at p, ⟨p.after found.1.text, found.2⟩)

/-- The next token of a text, and the cursor behind it. -/
def next (k : Cursor) : Token Position × Cursor :=
  nextFrom k.place k.rest

/-- A token that is not the end has used up some of the text. -/
theorem length_nextFrom_lt (cs : List Char) (p : Place)
    (h : (nextFrom p cs).1.kind ≠ .eof) :
    (nextFrom p cs).2.rest.length < cs.length := by
  induction cs generalizing p with
  | nil => simp [nextFrom, Place.endToken] at h
  | cons c cs ih =>
    by_cases hgap : isGap c
    · simp only [nextFrom, hgap, if_true] at h ⊢
      exact Nat.lt_succ_of_lt (ih _ h)
    · simpa [nextFrom, hgap] using Lexeme.length_munch_lt c cs

/-- The tokens from the cursor up to the end of the text. -/
def tokens (k : Cursor) : List (Token Position) :=
  if (k.next).1.kind = .eof then []
  else (k.next).1 :: tokens (k.next).2
termination_by k.rest.length
decreasing_by exact length_nextFrom_lt _ _ (by assumption)

/-- The answers of the first `n` calls of `next`. -/
def stream : Nat → Cursor → List (Token Position)
  | 0, _ => []
  | n + 1, k => (k.next).1 :: stream n (k.next).2

end Cursor

/-- The tokens of a text, without its end. -/
def tokens (source : String) : List (Token Position) :=
  (Cursor.ofText source).tokens

/-- The end token of a text. -/
def endToken (source : String) : Token Position :=
  (Place.origin.after source.toList).endToken

/-- The tokens of a text, and its end. -/
def tokenize (source : String) : List (Token Position) :=
  tokens source ++ [endToken source]

/-- The line of a token listing that shows one token. -/
def Token.listing (t : Token Position) : String :=
  "Token(" ++ t.kind.name ++ ", " ++ quoted t.literal ++ ") @" ++
    t.pos.line.repr ++ ":" ++ t.pos.column.repr ++ "\n"

/-- The token listing of a text: a line for each token before the end. -/
def listing (source : String) : String :=
  String.join ((tokens source).map Token.listing)

end MonkeyLang
