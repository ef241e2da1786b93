import MonkeyLang.Proofs.Run.Keeping
import MonkeyLang.Proofs.Run.Plain
import MonkeyLang.Proofs.Run.Unwinding

/-!
# Values of expressions

The value of an expression is neither an error nor a pending return, whatever there is in the
heap: such a value, come upon in a variable, in an object or as the answer of a function,
interrupts the run.  Statements have no such value either, so the value of a block has not.
-/

namespace MonkeyLang

variable {α σ S β : Type}

theorem Value.IsPlain.settled {v : Value} (hv : v.IsPlain) : v.settled = .ok v := by
  cases v with
  | ret | error => exact hv.elim
  | _ => rfl

theorem Value.isPlain_of_settled {v w : Value} (h : v.settled = .ok w) : w.IsPlain := by
  cases v with
  | ret | error => cases h
  | _ =>
      cases h
      trivial

namespace RunOn

/-- A run whose value, if it has one, is plain. -/
def EndsPlain (x : RunOn σ (StateM S) Value) : Prop :=
  ∀ st s v st' s', x.ending st s = ⟨some (.ok v), st', s'⟩ → v.IsPlain

theorem endsPlain_pure {v : Value} (hv : v.IsPlain) :
    EndsPlain (pure v : RunOn σ (StateM S) Value) := by
  rintro st s _ st' s' ⟨⟩
  exact hv

theorem endsPlain_interrupt (i : Interrupt) :
    EndsPlain (Run.interrupt i : RunOn σ (StateM S) Value) := by
  rintro st s _ st' s' ⟨⟩

theorem endsPlain_outOfFuel : EndsPlain (Run.outOfFuel : RunOn σ (StateM S) Value) := by
  rintro st s _ st' s' ⟨⟩

theorem endsPlain_ofExcept {r : Except RuntimeError Value} (hr : ∀ v, r = .ok v → v.IsPlain) :
    EndsPlain (Run.ofExcept r : RunOn σ (StateM S) Value) := by
  cases r with
  | ok v => exact endsPlain_pure (hr v rfl)
  | error e => exact endsPlain_interrupt _

theorem endsPlain_settle (v : Value) : EndsPlain (Run.settle v : RunOn σ (StateM S) Value) := by
  intro st s w st' s' hw
  rw [ending_settle] at hw
  exact Value.isPlain_of_settled (Option.some.inj (congrArg Ending.outcome hw))

theorem EndsPlain.bind_of_isPlain {x : RunOn σ (StateM S) Value}
    {k : Value → RunOn σ (StateM S) Value} (hx : EndsPlain x)
    (hk : ∀ v, v.IsPlain → EndsPlain (k v)) : EndsPlain (x >>= k) := by
  intro st s w st' s' hw
  obtain ⟨v, st₁, s₁, hv, hkv⟩ := ending_bind_eq_ok.mp hw
  exact hk v (hx _ _ _ _ _ hv) _ _ _ _ _ hkv

theorem endsPlain_bind (x : RunOn σ (StateM S) β) {k : β → RunOn σ (StateM S) Value}
    (hk : ∀ v, EndsPlain (k v)) : EndsPlain (x >>= k) := by
  intro st s w st' s' hw
  obtain ⟨v, st₁, s₁, -, hkv⟩ := ending_bind_eq_ok.mp hw
  exact hk v _ _ _ _ _ hkv

end RunOn

namespace Run

open RunOn

variable [Digest] [Host (StateM S)] [Store α σ]

/-- With `n` units of fuel, values are plain if those that they begin with are. -/
structure PlainAt (α σ S : Type) [Host (StateM S)] [Store α σ] (n : Nat) : Prop where
  expr : ∀ scope (e : Expr α), EndsPlain (σ := σ) (S := S) (Run.expr n scope e)
  stmt : ∀ scope (x : Stmt α), EndsPlain (σ := σ) (S := S) (Run.stmt n scope x)
  stmts : ∀ scope (xs : List (Stmt α)) v, v.IsPlain →
    EndsPlain (σ := σ) (S := S) (Run.stmts n scope xs v)
  loop : ∀ scope (c : Expr α) xs v, v.IsPlain →
    EndsPlain (σ := σ) (S := S) (Run.loop n scope c xs v)

omit [Digest] [Host (StateM S)] in
theorem endsPlain_name (scope : ScopeId) (x : String) :
    EndsPlain (Run.name scope x : RunOn σ (StateM S) Value) := by
  refine endsPlain_bind _ fun found => ?_
  cases found with
  | some v => exact endsPlain_settle v
  | none =>
      cases Builtin.ofName? x with
      | some b => exact endsPlain_pure trivial
      | none => exact endsPlain_interrupt _

variable {n : Nat} (ih : PlainAt α σ S n)

include ih

theorem endsPlain_expr (scope : ScopeId) (e : Expr α) :
    EndsPlain (Run.expr (n + 1) scope e : RunOn σ (StateM S) Value) := by
  have atoms := Value.isPlain_inherited.atom
  cases e with
  | ident x => exact endsPlain_name scope x.name
  | int | str | bool => exact endsPlain_pure trivial
  | unary t op r =>
      exact endsPlain_bind _ fun v =>
        endsPlain_ofExcept fun w hw => atoms w (UnaryOp.isAtom_of_apply hw)
  | binary t op l r =>
      exact endsPlain_bind _ fun v => endsPlain_bind _ fun w =>
        endsPlain_ofExcept fun u hu => atoms u (BinaryOp.isAtom_of_apply hu)
  | assign t x e =>
      exact (ih.expr scope e).bind_of_isPlain fun v hv =>
        endsPlain_bind _ fun _ => endsPlain_pure hv
  | cond t c b alt =>
      refine endsPlain_bind _ fun v => ?_
      cases v.truthy with
      | true => exact ih.stmts scope b.statements .null trivial
      | false =>
          cases alt with
          | none => exact endsPlain_pure trivial
          | some b' => exact ih.stmts scope b'.statements .null trivial
  | loop t c b => exact ih.loop scope c b.statements .null trivial
  | func => exact endsPlain_bind _ fun id => endsPlain_pure (v := .func id) trivial
  | array => exact endsPlain_bind _ fun vs => endsPlain_bind _ fun id =>
      endsPlain_pure (v := .array id) trivial
  | hash => exact endsPlain_bind _ fun table => endsPlain_bind _ fun id =>
      endsPlain_pure (v := .hash id) trivial
  | call t e es =>
      exact endsPlain_bind _ fun _ => endsPlain_bind _ fun _ => endsPlain_bind _ endsPlain_settle
  | index t l i =>
      exact endsPlain_bind _ fun _ => endsPlain_bind _ fun _ => endsPlain_bind _ fun _ =>
        endsPlain_bind _ endsPlain_settle

theorem endsPlain_stmt (scope : ScopeId) (x : Stmt α) :
    EndsPlain (Run.stmt (n + 1) scope x : RunOn σ (StateM S) Value) := by
  cases x with
  | declare => exact endsPlain_bind _ fun _ => endsPlain_bind _ fun _ => endsPlain_pure trivial
  | ret => exact endsPlain_bind _ fun _ => endsPlain_interrupt _
  | expr t e => exact ih.expr scope e

theorem endsPlain_stmts (scope : ScopeId) (xs : List (Stmt α)) {v : Value} (hv : v.IsPlain) :
    EndsPlain (Run.stmts (n + 1) scope xs v : RunOn σ (StateM S) Value) := by
  cases xs with
  | nil => exact endsPlain_pure hv
  | cons x xs => exact (ih.stmt scope x).bind_of_isPlain fun w hw => ih.stmts scope xs w hw

theorem endsPlain_loop (scope : ScopeId) (c : Expr α) (xs : List (Stmt α)) {v : Value}
    (hv : v.IsPlain) : EndsPlain (Run.loop (n + 1) scope c xs v : RunOn σ (StateM S) Value) := by
  refine endsPlain_bind _ fun u => ?_
  cases u.truthy with
  | true =>
      exact (ih.stmts scope xs .null trivial).bind_of_isPlain fun w hw => ih.loop scope c xs w hw
  | false => exact endsPlain_pure hv

omit ih in
theorem plainAt (n : Nat) : PlainAt α σ S n := by
  induction n with
  | zero =>
      exact ⟨fun _ _ => endsPlain_outOfFuel, fun _ _ => endsPlain_outOfFuel,
        fun _ _ _ _ => endsPlain_outOfFuel, fun _ _ _ _ _ => endsPlain_outOfFuel⟩
  | succ n ih =>
      exact ⟨endsPlain_expr ih, endsPlain_stmt ih, fun scope xs _ => endsPlain_stmts ih scope xs,
        fun scope c xs _ => endsPlain_loop ih scope c xs⟩

end Run

/-- The value of an expression is neither an error nor a pending return. -/
theorem Job.Ends.isPlain [Digest] [Host (StateM S)] {scope : ScopeId} {e : Expr α} {h h' : Heap α}
    {s s' : S} {v : Value} (hends : Ends ⟨.expr scope e, h, s⟩ (.ok v) h' s') : v.IsPlain := by
  obtain ⟨n, hn⟩ := hends.exists
  exact (Run.plainAt n).expr scope e h s v h' s' hn

end MonkeyLang
