import MonkeyLang.Proofs.Tree.Map
import MonkeyLang.Token.Munch

/-!
# Trees that can be written down

Not every tree is the tree of some text: names have to be written with letters
and must not be reserved, numbers have no sign of their own, and strings hold no
quotes.
-/

namespace MonkeyLang

variable {α β : Type}

/-- Whether a name is a word that is not reserved. -/
structure IsName (name : String) : Prop where
  ne_nil : name.toList ≠ []
  letters : ∀ c ∈ name.toList, isLetter c = true
  kind : Kind.ofWord name = .identifier

mutual

/-- Whether an expression can be written down. -/
def Expr.WellFormed : Expr α → Prop
  | .ident id => IsName id.name
  | .int _ n => 0 ≤ n
  | .str _ s => '"' ∉ s.toList
  | .bool _ _ => True
  | .unary _ _ r => r.WellFormed
  | .binary _ _ l r => l.WellFormed ∧ r.WellFormed
  | .assign _ x v => IsName x.name ∧ v.WellFormed
  | .cond _ c b alt => c.WellFormed ∧ b.WellFormed ∧ Block.WellFormedOption alt
  | .loop _ c b => c.WellFormed ∧ b.WellFormed
  | .func _ ps b => (∀ x ∈ ps, IsName x.name) ∧ b.WellFormed
  | .call _ e es => e.WellFormed ∧ Expr.WellFormedList es
  | .array _ es => Expr.WellFormedList es
  | .index _ l i => l.WellFormed ∧ i.WellFormed
  | .hash _ ps => Expr.WellFormedPairs ps

/-- Whether some expressions can be written down. -/
def Expr.WellFormedList : List (Expr α) → Prop
  | [] => True
  | e :: es => e.WellFormed ∧ Expr.WellFormedList es

/-- Whether some pairs of expressions can be written down. -/
def Expr.WellFormedPairs : List (Expr α × Expr α) → Prop
  | [] => True
  | (k, v) :: ps => (k.WellFormed ∧ v.WellFormed) ∧ Expr.WellFormedPairs ps

/-- Whether a statement can be written down. -/
def Stmt.WellFormed : Stmt α → Prop
  | .declare _ _ x v => IsName x.name ∧ v.WellFormed
  | .ret _ v => v.WellFormed
  | .expr _ v => v.WellFormed

/-- Whether some statements can be written down. -/
def Stmt.WellFormedList : List (Stmt α) → Prop
  | [] => True
  | s :: ss => s.WellFormed ∧ Stmt.WellFormedList ss

/-- Whether a block can be written down. -/
def Block.WellFormed : Block α → Prop
  | .mk _ ss => Stmt.WellFormedList ss

/-- Whether a block, if there is one, can be written down. -/
def Block.WellFormedOption : Option (Block α) → Prop
  | none => True
  | some b => b.WellFormed

end

/-- Whether a program can be written down. -/
def Program.WellFormed (p : Program α) : Prop :=
  Stmt.WellFormedList p.statements

theorem Expr.wellFormedList_iff (es : List (Expr α)) :
    Expr.WellFormedList es ↔ ∀ e ∈ es, e.WellFormed := by
  induction es with
  | nil => simp [Expr.WellFormedList]
  | cons e es ih => simp [Expr.WellFormedList, ih]

theorem Expr.wellFormedPairs_iff (ps : List (Expr α × Expr α)) :
    Expr.WellFormedPairs ps ↔ ∀ p ∈ ps, p.1.WellFormed ∧ p.2.WellFormed := by
  induction ps with
  | nil => simp [Expr.WellFormedPairs]
  | cons p ps ih =>
      obtain ⟨k, v⟩ := p
      simp [Expr.WellFormedPairs, ih]

theorem Stmt.wellFormedList_iff (ss : List (Stmt α)) :
    Stmt.WellFormedList ss ↔ ∀ s ∈ ss, s.WellFormed := by
  induction ss with
  | nil => simp [Stmt.WellFormedList]
  | cons s ss ih => simp [Stmt.WellFormedList, ih]

end MonkeyLang
