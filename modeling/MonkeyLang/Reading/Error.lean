import MonkeyLang.Token.Basic

/-!
# Parse errors

What can be wrong with a list of tokens.  An error has a cause, from which its
message follows, and sits on a token.
-/

namespace MonkeyLang

namespace ParseError

/-- What is wrong. -/
inductive Cause where
  /-- No expression begins with the token. -/
  | noOperand (found : Kind)
  /-- The token is a character that belongs to no token. -/
  | illegalCharacter (literal : String)
  /-- Another token should stand here. -/
  | expected (want found : Kind)
  /-- The number is too large. -/
  | integerOutOfRange (literal : String)
  /-- The left side of an assignment is not a name. -/
  | notAssignable (target : String)
  /-- The text ends inside a block. -/
  | unclosedBlock
  deriving DecidableEq, Repr

/-- The message of a cause. -/
def Cause.message : Cause → String
  | noOperand found => "no prefix parse function for " ++ found.name ++ " found"
  | illegalCharacter literal => "illegal character '" ++ literal ++ "'"
  | expected want found =>
    "expected next token to be " ++ want.name ++ ", got " ++ found.name ++ " instead"
  | integerOutOfRange literal => "could not parse " ++ literal ++ " as integer"
  | notAssignable target => "expected identifier on left but got " ++ target
  | unclosedBlock =>
    "expected " ++ Kind.name .rightBrace ++ " to close block, got EOF instead"

end ParseError

/-- An error found while reading tokens: its cause and the place of the token
it sits on. -/
structure ParseError (π : Type) where
  cause : ParseError.Cause
  pos : π
  deriving DecidableEq, Repr

namespace ParseError

/-- The message of an error. -/
def message {π : Type} (e : ParseError π) : String :=
  e.cause.message

/-- The same error at another place. -/
def map {π ρ : Type} (f : π → ρ) (e : ParseError π) : ParseError ρ :=
  ⟨e.cause, f e.pos⟩

/-- The message of an error with its line and column before it. -/
def display (e : ParseError Position) : String :=
  "[" ++ e.pos.line.repr ++ ":" ++ e.pos.column.repr ++ "] " ++ e.message

end ParseError

end MonkeyLang
