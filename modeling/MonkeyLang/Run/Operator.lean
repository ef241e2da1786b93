import MonkeyLang.Run.Error

/-!
# Operators

What operators make of their operands.  Numbers are 64-bit two's complement:
sums, differences and products wrap around, and quotients are truncated toward
zero.
-/

namespace MonkeyLang

/-- The value of an operator before an operand. -/
def UnaryOp.apply : UnaryOp → Value → Except RuntimeError Value
  | not, .bool b => .ok (.bool !b)
  | not, .null => .ok (.bool true)
  | not, _ => .ok (.bool false)
  | negate, .int n => .ok (.int (-n))
  | negate, v => .error (.badOperand negate v.kind)

/-- The largest size, in bytes, of a text that a repetition may have. -/
def maxRepetitionBytes : Nat := 0x40000000

/-- A text written `n` times in a row. -/
def repeated (text : String) (n : Nat) : String :=
  if text = "" then "" else Nat.repeat (fun sofar => sofar ++ text) n ""

/-- A text repeated; a negative count counts as zero. -/
def repeatText (text : String) (count : Int64) : Except RuntimeError Value :=
  let n := count.toInt.toNat
  if text.utf8ByteSize * n ≤ maxRepetitionBytes then .ok (.str (repeated text n))
  else .error (.repetitionTooLarge n)

namespace BinaryOp

/-- The value of an operator between numbers. -/
def applyInt (op : BinaryOp) (l r : Int64) : Except RuntimeError Value :=
  match op with
  | add => .ok (.int (l + r))
  | subtract => .ok (.int (l - r))
  | multiply => .ok (.int (l * r))
  | divide => if r = 0 then .error .divisionByZero else .ok (.int (l / r))
  | modulo => if r = 0 then .error .divisionByZero else .ok (.int (l % r))
  | bitAnd => .ok (.int (l &&& r))
  | bitOr => .ok (.int (l ||| r))
  | bitXor => .ok (.int (l ^^^ r))
  | equal => .ok (.bool (l == r))
  | notEqual => .ok (.bool (l != r))
  | less => .ok (.bool (decide (l < r)))
  | lessEqual => .ok (.bool (decide (l ≤ r)))
  | greater => .ok (.bool (decide (r < l)))
  | greaterEqual => .ok (.bool (decide (r ≤ l)))

/-- The value of an operator between texts: they can only be joined. -/
def applyStr (op : BinaryOp) (l r : String) : Except RuntimeError Value :=
  match op with
  | add => .ok (.str (l ++ r))
  | _ => .error (.badOperands op .string .string)

/-- The value of an operator between operands for which it has no meaning of
its own: values of one kind can be compared for being the same. -/
def applyOther (op : BinaryOp) (l r : Value) : Except RuntimeError Value :=
  if l.kind = r.kind then
    match op with
    | equal => .ok (.bool (l.same r))
    | notEqual => .ok (.bool !(l.same r))
    | _ => .error (.badOperands op l.kind r.kind)
  else .error (.mismatch op l.kind r.kind)

/-- The value of an operator between operands. -/
def apply (op : BinaryOp) (l r : Value) : Except RuntimeError Value :=
  match l, r with
  | .int a, .int b => op.applyInt a b
  | .str a, .str b => op.applyStr a b
  | .str text, .int count =>
    if op = multiply then repeatText text count else op.applyOther l r
  | .int count, .str text =>
    if op = multiply then repeatText text count else op.applyOther l r
  | _, _ => op.applyOther l r

end BinaryOp

/-- The member of a list at an index, if the index is in range. -/
def memberAt? {α : Type} (xs : List α) (i : Int64) : Option α :=
  if i < 0 then none else xs[i.toInt.toNat]?

namespace Heap

/-- The value of an index expression. -/
def index {α : Type} [Digest] (h : Heap α) (left i : Value) : Except RuntimeError Value :=
  match left, i with
  | .array id, .int n => .ok ((memberAt? (h.elements id) n).getD .null)
  | .str text, .int n =>
    .ok (((memberAt? text.toList n).map fun c => Value.str (String.singleton c)).getD .null)
  | .hash id, k =>
    match k.key? with
    | some key => .ok (((h.table id).find? key).getD .null)
    | none => .error (.notHashable k.kind)
  | v, _ => .error (.notIndexable v.kind)

end Heap

end MonkeyLang
