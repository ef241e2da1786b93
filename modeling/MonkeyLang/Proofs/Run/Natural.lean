import MonkeyLang.Proofs.Run.Carrying

/-!
# Running does not look at annotations

A run in one kind of state is compared with a run in another.  The states
correspond by a function `φ`, and where a heap is kept in the one, that heap
with the annotations changed is kept in the other.  Then a tree and the tree
with its annotations changed are run alike.
-/

namespace MonkeyLang

variable {α α' σ τ S β γ : Type}

namespace Ending

/-- The same ending in another kind of state. -/
def map (φ : σ → τ) (e : Ending σ S β) : Ending τ S β :=
  ⟨e.outcome, φ e.state, e.host⟩

theorem map_andThen (φ : σ → τ) (e : Ending σ S β) {k : β → σ → S → Ending σ S γ}
    {l : β → τ → S → Ending τ S γ} (h : ∀ v st s, l v (φ st) s = (k v st s).map φ) :
    (e.map φ).andThen l = (e.andThen k).map φ :=
  carry_andThen (ψ := id) e h

end Ending

/-- The run `y` does in the state `φ st` what `x` does in the state `st`. -/
def RunOn.Mirrors (φ : σ → τ) (x : RunOn σ (StateM S) β) (y : RunOn τ (StateM S) β) : Prop :=
  ∀ st s, y.ending (φ st) s = (x.ending st s).map φ

namespace Run

open RunOn

variable [Store α σ] [Store α' τ] [Digest] [Host (StateM S)] {f : α → α'} {φ : σ → τ}

/-- With `n` units of fuel, trees are run alike with other annotations. -/
structure NaturalUpTo (S : Type) [Host (StateM S)] [Store α σ] [Store α' τ] (f : α → α')
    (φ : σ → τ) (n : Nat) : Prop where
  expr : ∀ (scope : ScopeId) (e : Expr α),
    Mirrors (S := S) φ (Run.expr n scope e) (Run.expr n scope (e.map f))
  exprs : ∀ (scope : ScopeId) (es : List (Expr α)),
    Mirrors (S := S) φ (Run.exprs n scope es) (Run.exprs n scope (Expr.mapList f es))
  pairs : ∀ (scope : ScopeId) (ps : List (Expr α × Expr α)) (t : Table),
    Mirrors (S := S) φ (Run.pairs n scope ps t) (Run.pairs n scope (Expr.mapPairs f ps) t)
  stmt : ∀ (scope : ScopeId) (x : Stmt α),
    Mirrors (S := S) φ (Run.stmt n scope x) (Run.stmt n scope (x.map f))
  stmts : ∀ (scope : ScopeId) (xs : List (Stmt α)) (v : Value),
    Mirrors (S := S) φ (Run.stmts n scope xs v) (Run.stmts n scope (Stmt.mapList f xs) v)
  loop : ∀ (scope : ScopeId) (c : Expr α) (xs : List (Stmt α)) (v : Value),
    Mirrors (S := S) φ (Run.loop n scope c xs v) (Run.loop n scope (c.map f) (Stmt.mapList f xs) v)
  apply : ∀ (callee : Value) (args : List Value),
    Mirrors (S := S) (σ := σ) (τ := τ) φ (Run.apply n callee args) (Run.apply n callee args)

omit [Digest] in
/-- Nothing changes on the host. -/
theorem mirrors_congruence (hφ : Store.Along f φ) :
    FullCongruence f fun β => Mirrors (S := S) (β := β) φ :=
  carries_congruence hφ Host.along_id

theorem naturalUpTo (hφ : Store.Along f φ) (n : Nat) : NaturalUpTo S f φ n := by
  have h := (mirrors_congruence (S := S) hφ).upTo n
  exact ⟨h.expr, h.exprs, h.pairs, h.stmt, h.stmts, h.loop, h.apply⟩

/-- A program is run as it is with other annotations. -/
theorem program_map (hφ : Store.Along f φ) (n : Nat) (scope : ScopeId) (p : Program α) (st : σ)
    (s : S) :
    (program n scope (p.map f)).ending (φ st) s = ((program n scope p).ending st s).map φ :=
  (mirrors_congruence hφ).program n scope p st s

end Run

end MonkeyLang
