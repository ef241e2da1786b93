import MonkeyLang.Token.Basic
import MonkeyLang.Tree.Basic

/-!
# Precedences

How tightly the parts of an expression are bound, and which tokens can begin
an expression or go on with one.
-/

namespace MonkeyLang

/-- How tightly an operator holds its operands, loosest first. -/
inductive Precedence where
  | lowest | assign | equals | lessGreater | or | xor | and | sum | product
  | unary | call | index
  deriving DecidableEq, Repr, Inhabited

namespace Precedence

/-- The place of a precedence in the order. -/
def rank : Precedence → Nat
  | lowest => 0
  | assign => 1
  | equals => 2
  | lessGreater => 3
  | or => 4
  | xor => 5
  | and => 6
  | sum => 7
  | product => 8
  | unary => 9
  | call => 10
  | index => 11

instance : LT Precedence := ⟨fun p q => p.rank < q.rank⟩

instance : LE Precedence := ⟨fun p q => p.rank ≤ q.rank⟩

instance (p q : Precedence) : Decidable (p < q) :=
  inferInstanceAs (Decidable (p.rank < q.rank))

instance (p q : Precedence) : Decidable (p ≤ q) :=
  inferInstanceAs (Decidable (p.rank ≤ q.rank))

theorem lt_iff {p q : Precedence} : p < q ↔ p.rank < q.rank := Iff.rfl

/-- The name of a precedence. -/
def name : Precedence → String
  | lowest => "Lowest"
  | assign => "Assign"
  | equals => "Equals"
  | lessGreater => "LessGreater"
  | or => "Or"
  | xor => "Xor"
  | and => "And"
  | sum => "Sum"
  | product => "Product"
  | unary => "Prefix"
  | call => "Call"
  | index => "Index"

/-- Every precedence, loosest first. -/
def all : List Precedence :=
  [lowest, assign, equals, lessGreater, or, xor, and, sum, product, unary, call, index]

/-- The precedence with a given name. -/
def ofName? (text : String) : Option Precedence :=
  all.find? fun p => p.name == text

@[simp]
theorem ofName?_name (p : Precedence) : ofName? p.name = some p := by
  cases p <;> decide

end Precedence

/-- The precedence of an operator between two operands. -/
def BinaryOp.precedence : BinaryOp → Precedence
  | equal | notEqual => .equals
  | less | lessEqual | greater | greaterEqual => .lessGreater
  | bitOr => .or
  | bitXor => .xor
  | bitAnd => .and
  | add | subtract => .sum
  | multiply | divide | modulo => .product

/-- The ways in which an expression goes on behind an operand. -/
inductive Continuation where
  | binary (op : BinaryOp) | assign | call | index
  deriving DecidableEq, Repr

namespace Continuation

/-- How tightly a continuation holds the operand before it. -/
def precedence : Continuation → Precedence
  | binary op => op.precedence
  | assign => .assign
  | call => .call
  | index => .index

/-- The continuation that a token begins. -/
def ofKind? : Kind → Option Continuation
  | .plus => binary .add
  | .minus => binary .subtract
  | .star => binary .multiply
  | .slash => binary .divide
  | .percent => binary .modulo
  | .ampersand => binary .bitAnd
  | .pipe => binary .bitOr
  | .caret => binary .bitXor
  | .equalEqual => binary .equal
  | .bangEqual => binary .notEqual
  | .less => binary .less
  | .lessEqual => binary .lessEqual
  | .greater => binary .greater
  | .greaterEqual => binary .greaterEqual
  | .equal => assign
  | .leftParen => call
  | .leftBracket => index
  | _ => none

end Continuation

namespace Kind

/-- Whether a token of this kind can go on with an expression. -/
def continuesExpr (k : Kind) : Bool :=
  (Continuation.ofKind? k).isSome

/-- How tightly a token of this kind holds the operand before it; a token that
does not go on with an expression holds it least. -/
def precedence (k : Kind) : Precedence :=
  match Continuation.ofKind? k with
  | some c => c.precedence
  | none => .lowest

/-- The tokens that go on with an expression are those that hold the operand
before them more than least. -/
theorem lowest_lt_precedence_iff (k : Kind) :
    .lowest < k.precedence ↔ k.continuesExpr = true := by
  cases k <;> decide

/-- Whether a token of this kind can begin an expression. -/
def startsExpr : Kind → Bool
  | identifier | integer | string | kwTrue | kwFalse | bang | minus | leftParen
  | kwIf | kwWhile | kwFunc | leftBracket | leftBrace => true
  | _ => false

end Kind

end MonkeyLang
