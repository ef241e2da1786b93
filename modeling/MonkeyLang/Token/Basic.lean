/-!
# Tokens

A token is a kind, the literal it carries, and whatever is known of where it
was found.  Parsing looks at the first two only, so the last is a parameter;
tokens of a text carry a `Position`.
-/

namespace MonkeyLang

/-- The kinds of token.  A text is made of tokens of every kind but `eof`,
which stands for its end. -/
inductive Kind where
  | leftParen | rightParen | leftBrace | rightBrace | leftBracket | rightBracket
  | comma | colon | semicolon
  | minus | plus | slash | star | percent | ampersand | pipe | caret
  | bang | bangEqual | equal | equalEqual | greater | greaterEqual | less | lessEqual
  | identifier | string | integer
  | kwFunc | kwVar | kwVal | kwTrue | kwFalse | kwIf | kwElse | kwWhile | kwReturn
  | illegal | eof
  deriving DecidableEq, Repr, Inhabited

namespace Kind

/-- The name of a kind in messages and listings: the token itself where it has
only one spelling. -/
def name : Kind → String
  | leftParen => "("
  | rightParen => ")"
  | leftBrace => "\x7b"
  | rightBrace => "\x7d"
  | leftBracket => "["
  | rightBracket => "]"
  | comma => ","
  | colon => ":"
  | semicolon => ";"
  | minus => "-"
  | plus => "+"
  | slash => "/"
  | star => "*"
  | percent => "%"
  | ampersand => "&"
  | pipe => "|"
  | caret => "^"
  | bang => "!"
  | bangEqual => "!="
  | equal => "="
  | equalEqual => "=="
  | greater => ">"
  | greaterEqual => ">="
  | less => "<"
  | lessEqual => "<="
  | identifier => "IDENT"
  | string => "STRING"
  | integer => "INT"
  | kwFunc => "FUNCTION"
  | kwVar => "VAR"
  | kwVal => "VAL"
  | kwTrue => "TRUE"
  | kwFalse => "FALSE"
  | kwIf => "IF"
  | kwElse => "ELSE"
  | kwWhile => "WHILE"
  | kwReturn => "RETURN"
  | illegal => "ILLEGAL"
  | eof => "EOF"

/-- Every kind, in the order of declaration. -/
def all : List Kind :=
  [leftParen, rightParen, leftBrace, rightBrace, leftBracket, rightBracket, comma, colon,
   semicolon, minus, plus, slash, star, percent, ampersand, pipe, caret, bang, bangEqual,
   equal, equalEqual, greater, greaterEqual, less, lessEqual, identifier, string, integer,
   kwFunc, kwVar, kwVal, kwTrue, kwFalse, kwIf, kwElse, kwWhile, kwReturn, illegal, eof]

/-- The kind with a given name. -/
def ofName? (text : String) : Option Kind :=
  all.find? fun k => k.name == text

@[simp]
theorem ofName?_name (k : Kind) : ofName? k.name = some k := by
  cases k <;> decide

/-- The reserved words. -/
def keywords : List (String × Kind) :=
  [("func", kwFunc), ("var", kwVar), ("val", kwVal), ("true", kwTrue), ("false", kwFalse),
   ("if", kwIf), ("else", kwElse), ("while", kwWhile), ("return", kwReturn)]

/-- The kind of a run of letters: a reserved word or else an identifier. -/
def ofWord (word : String) : Kind :=
  (keywords.lookup word).getD identifier

/-- The kind of a sign that is one character long. -/
def ofSign? : Char → Option Kind
  | '(' => leftParen
  | ')' => rightParen
  | '\x7b' => leftBrace
  | '\x7d' => rightBrace
  | '[' => leftBracket
  | ']' => rightBracket
  | ',' => comma
  | ':' => colon
  | ';' => semicolon
  | '-' => minus
  | '+' => plus
  | '/' => slash
  | '*' => star
  | '%' => percent
  | '&' => ampersand
  | '|' => pipe
  | '^' => caret
  | '!' => bang
  | '=' => equal
  | '<' => less
  | '>' => greater
  | _ => none

/-- The kind of a sign that is one character followed by `=`. -/
def ofSignEqual? : Char → Option Kind
  | '!' => bangEqual
  | '=' => equalEqual
  | '<' => lessEqual
  | '>' => greaterEqual
  | _ => none

end Kind

/-- Where a token was found: the line and column of its first character,
counted in characters from 1, and its bytes in the UTF-8 form of the text, from
`start` up to but not including `stop`. -/
structure Position where
  line : Nat
  column : Nat
  start : Nat
  stop : Nat
  deriving DecidableEq, Repr, Inhabited

/-- A token, with what is known of its place. -/
structure Token (π : Type) where
  kind : Kind
  literal : String
  pos : π
  deriving DecidableEq, Repr, Inhabited

/-- The same token at another place. -/
def Token.map {π ρ : Type} (f : π → ρ) (t : Token π) : Token ρ :=
  ⟨t.kind, t.literal, f t.pos⟩

section

variable {π ρ : Type} (f : π → ρ) (t : Token π)

@[simp]
theorem Token.kind_map : (t.map f).kind = t.kind := rfl

@[simp]
theorem Token.literal_map : (t.map f).literal = t.literal := rfl

@[simp]
theorem Token.pos_map : (t.map f).pos = f t.pos := rfl

end

end MonkeyLang
