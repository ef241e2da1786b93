import MonkeyLang.Store.Heap

/-!
# Runtime errors

What can go wrong in a running program, and how it is reported.
-/

namespace MonkeyLang

/-- Why a program cannot go on. -/
inductive RuntimeError where
  /-- A name is bound nowhere. -/
  | unknownName (name : String)
  /-- An operator before an operand that it is not for. -/
  | badOperand (op : UnaryOp) (kind : ValueKind)
  /-- An operator between operands that it is not for. -/
  | badOperands (op : BinaryOp) (left right : ValueKind)
  /-- An operator between operands of different kinds. -/
  | mismatch (op : BinaryOp) (left right : ValueKind)
  | divisionByZero
  | repetitionTooLarge (count : Nat)
  | notIndexable (kind : ValueKind)
  | notHashable (kind : ValueKind)
  | notCallable (kind : ValueKind)
  /-- A function called with too many or too few arguments. -/
  | parameterCount (want got : Nat)
  /-- A builtin function called with too many or too few arguments. -/
  | argumentCount (got : Nat) (want : String)
  /-- An argument of the wrong kind to a builtin function. -/
  | badArgument (b : Builtin) (want got : ValueKind)
  | noLength (kind : ValueKind)
  | popFromEmpty
  | exitCodeOutOfRange (code : Int64)
  | unreadable (path : String)
  | unwritable (path reason : String)
  | binding (e : BindingError)
  deriving DecidableEq, Repr

/-- The message of a runtime error. -/
def RuntimeError.message : RuntimeError → String
  | unknownName name => "identifier not found: " ++ name
  | badOperand op kind => "unknown operator: " ++ op.sign ++ kind.name
  | badOperands op left right =>
    "unknown operator: " ++ left.name ++ " " ++ op.sign ++ " " ++ right.name
  | mismatch op left right =>
    "type mismatch: " ++ left.name ++ " " ++ op.sign ++ " " ++ right.name
  | divisionByZero => "division by zero"
  | repetitionTooLarge count => "string repetition too large: " ++ count.repr
  | notIndexable kind => "index operator not supported: " ++ kind.name
  | notHashable kind => "unusable as hash key: " ++ kind.name
  | notCallable kind => "not a function: " ++ kind.name
  | parameterCount want got =>
    "wrong number of arguments: want=" ++ want.repr ++ ", got=" ++ got.repr
  | argumentCount got want =>
    "wrong number of arguments. got=" ++ got.repr ++ ", want=" ++ want
  | badArgument b want got =>
    "argument to `" ++ b.name ++ "` must be " ++ want.name ++ ", got " ++ got.name
  | noLength kind => "argument to `len` not supported, got " ++ kind.name
  | popFromEmpty => "pop from empty array"
  | exitCodeOutOfRange code => "exit code out of range: " ++ code.toInt.repr
  | unreadable path => "could not read file: " ++ path
  | unwritable path reason => "could not write file " ++ path ++ ": " ++ reason
  | binding e => e.message

end MonkeyLang
