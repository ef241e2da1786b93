/-!
# Syntax trees

Programs, statements, blocks and expressions.  Every node holds an annotation
of a type of one's choice: a tree that was read from a text has the tokens of
the text in its nodes, and the tree that is run has nothing in them.
`Program.map` changes the annotations, and `Program.erase` drops them.
-/

namespace MonkeyLang

/-- The operators before one operand. -/
inductive UnaryOp where
  | not | negate
  deriving DecidableEq, Repr, Inhabited

/-- The sign of an operator before one operand. -/
def UnaryOp.sign : UnaryOp → String
  | not => "!"
  | negate => "-"

/-- The operators between two operands. -/
inductive BinaryOp where
  | add | subtract | multiply | divide | modulo
  | bitAnd | bitOr | bitXor
  | equal | notEqual | less | lessEqual | greater | greaterEqual
  deriving DecidableEq, Repr, Inhabited

/-- The sign of an operator between two operands. -/
def BinaryOp.sign : BinaryOp → String
  | add => "+"
  | subtract => "-"
  | multiply => "*"
  | divide => "/"
  | modulo => "%"
  | bitAnd => "&"
  | bitOr => "|"
  | bitXor => "^"
  | equal => "=="
  | notEqual => "!="
  | less => "<"
  | lessEqual => "<="
  | greater => ">"
  | greaterEqual => ">="

/-- What a declaration makes of a name: something that can be assigned to, or
something that cannot. -/
inductive BindingKind where
  | var | val
  deriving DecidableEq, Repr, Inhabited

/-- The word that begins a declaration. -/
def BindingKind.word : BindingKind → String
  | var => "var"
  | val => "val"

/-- A name as it stands in a program. -/
structure Ident (α : Type) where
  tok : α
  name : String
  deriving DecidableEq, Repr, Inhabited

mutual

/-- Expressions.  Parentheses leave no node, and `else if` stands for an
alternative block whose one statement is the inner conditional. -/
inductive Expr (α : Type) where
  | ident (id : Ident α)
  | int (tok : α) (value : Int64)
  | str (tok : α) (value : String)
  | bool (tok : α) (value : Bool)
  | unary (tok : α) (op : UnaryOp) (right : Expr α)
  | binary (tok : α) (op : BinaryOp) (left right : Expr α)
  | assign (tok : α) (target : Ident α) (value : Expr α)
  | cond (tok : α) (condition : Expr α) (consequence : Block α)
      (alternative : Option (Block α))
  | loop (tok : α) (condition : Expr α) (body : Block α)
  | func (tok : α) (params : List (Ident α)) (body : Block α)
  | call (tok : α) (callee : Expr α) (args : List (Expr α))
  | array (tok : α) (elements : List (Expr α))
  | index (tok : α) (left index : Expr α)
  | hash (tok : α) (pairs : List (Expr α × Expr α))

/-- Statements. -/
inductive Stmt (α : Type) where
  | declare (kind : BindingKind) (tok : α) (name : Ident α) (value : Expr α)
  | ret (tok : α) (value : Expr α)
  | expr (tok : α) (value : Expr α)

/-- Statements in braces. -/
inductive Block (α : Type) where
  | mk (tok : α) (statements : List (Stmt α))

end

/-- A program is a list of statements. -/
structure Program (α : Type) where
  statements : List (Stmt α)

namespace Block

variable {α : Type}

/-- The annotation of a block itself. -/
def tok : Block α → α
  | mk t _ => t

/-- The statements of a block. -/
def statements : Block α → List (Stmt α)
  | mk _ ss => ss

end Block

/-- The annotation of an expression itself. -/
def Expr.tok {α : Type} : Expr α → α
  | .ident id => id.tok
  | .int t _ | .str t _ | .bool t _ | .unary t _ _ | .binary t _ _ _ | .assign t _ _
  | .cond t _ _ _ | .loop t _ _ | .func t _ _ | .call t _ _ | .array t _ | .index t _ _
  | .hash t _ => t

/-- The annotation of a statement itself. -/
def Stmt.tok {α : Type} : Stmt α → α
  | .declare _ t _ _ | .ret t _ | .expr t _ => t

/-- The same name with another annotation. -/
def Ident.map {α β : Type} (f : α → β) (id : Ident α) : Ident β :=
  ⟨f id.tok, id.name⟩

mutual

/-- The same expression with other annotations. -/
def Expr.map {α β : Type} (f : α → β) : Expr α → Expr β
  | .ident id => .ident (id.map f)
  | .int t n => .int (f t) n
  | .str t s => .str (f t) s
  | .bool t b => .bool (f t) b
  | .unary t op r => .unary (f t) op (r.map f)
  | .binary t op l r => .binary (f t) op (l.map f) (r.map f)
  | .assign t x v => .assign (f t) (x.map f) (v.map f)
  | .cond t c b alt => .cond (f t) (c.map f) (b.map f) (Block.mapOption f alt)
  | .loop t c b => .loop (f t) (c.map f) (b.map f)
  | .func t ps b => .func (f t) (ps.map (·.map f)) (b.map f)
  | .call t e es => .call (f t) (e.map f) (Expr.mapList f es)
  | .array t es => .array (f t) (Expr.mapList f es)
  | .index t l i => .index (f t) (l.map f) (i.map f)
  | .hash t ps => .hash (f t) (Expr.mapPairs f ps)

/-- The same expressions with other annotations. -/
def Expr.mapList {α β : Type} (f : α → β) : List (Expr α) → List (Expr β)
  | [] => []
  | e :: es => e.map f :: Expr.mapList f es

/-- The same pairs of expressions with other annotations. -/
def Expr.mapPairs {α β : Type} (f : α → β) : List (Expr α × Expr α) → List (Expr β × Expr β)
  | [] => []
  | (k, v) :: ps => (k.map f, v.map f) :: Expr.mapPairs f ps

/-- The same statement with other annotations. -/
def Stmt.map {α β : Type} (f : α → β) : Stmt α → Stmt β
  | .declare k t x v => .declare k (f t) (x.map f) (v.map f)
  | .ret t v => .ret (f t) (v.map f)
  | .expr t v => .expr (f t) (v.map f)

/-- The same statements with other annotations. -/
def Stmt.mapList {α β : Type} (f : α → β) : List (Stmt α) → List (Stmt β)
  | [] => []
  | s :: ss => s.map f :: Stmt.mapList f ss

/-- The same block with other annotations. -/
def Block.map {α β : Type} (f : α → β) : Block α → Block β
  | .mk t ss => .mk (f t) (Stmt.mapList f ss)

/-- The same block, if there is one, with other annotations. -/
def Block.mapOption {α β : Type} (f : α → β) : Option (Block α) → Option (Block β)
  | none => none
  | some b => some (b.map f)

end

section

variable {α β : Type} (f : α → β)

theorem Expr.mapList_eq (es : List (Expr α)) :
    Expr.mapList f es = es.map (·.map f) := by
  induction es with
  | nil => rfl
  | cons e es ih => simp [Expr.mapList, ih]

theorem Expr.mapPairs_eq (ps : List (Expr α × Expr α)) :
    Expr.mapPairs f ps = ps.map fun p => (p.1.map f, p.2.map f) := by
  induction ps with
  | nil => rfl
  | cons p ps ih => simp [Expr.mapPairs, ih]

theorem Stmt.mapList_eq (ss : List (Stmt α)) :
    Stmt.mapList f ss = ss.map (·.map f) := by
  induction ss with
  | nil => rfl
  | cons s ss ih => simp [Stmt.mapList, ih]

end

/-- The same program with other annotations. -/
def Program.map {α β : Type} (f : α → β) (p : Program α) : Program β :=
  ⟨Stmt.mapList f p.statements⟩

/-- The program alone, without annotations. -/
def Program.erase {α : Type} (p : Program α) : Program Unit :=
  p.map fun _ => ()

/-- The statement alone, without annotations. -/
def Stmt.erase {α : Type} (s : Stmt α) : Stmt Unit :=
  s.map fun _ => ()

/-- The expression alone, without annotations. -/
def Expr.erase {α : Type} (e : Expr α) : Expr Unit :=
  e.map fun _ => ()

end MonkeyLang
