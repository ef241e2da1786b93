import MonkeyLang.Proofs.Run.Ending
import MonkeyLang.Run.Text

/-!
# Enough fuel is always enough

A run that ends, ends in the same way with more fuel.  So it makes sense to say
where a run ends without saying with how much fuel, and it ends there only.
-/

namespace MonkeyLang

variable {α σ S β γ : Type}

namespace RunOn

/-- Where the run `x` ends, the run `y` ends in the same way. -/
def Approximates (x y : RunOn σ (StateM S) β) : Prop :=
  ∀ st s, (x.ending st s).outcome ≠ none → y.ending st s = x.ending st s

theorem Approximates.refl (x : RunOn σ (StateM S) β) : Approximates x x :=
  fun _ _ _ => rfl

theorem Approximates.trans {x y z : RunOn σ (StateM S) β} (hxy : Approximates x y)
    (hyz : Approximates y z) : Approximates x z := by
  intro st s h
  have hy := hxy st s h
  rw [← hy] at h
  rw [hyz st s h, hy]

theorem outOfFuel_approximates (x : RunOn σ (StateM S) β) : Approximates Run.outOfFuel x :=
  fun _ _ h => (h rfl).elim

theorem Approximates.bind {x y : RunOn σ (StateM S) β} {k l : β → RunOn σ (StateM S) γ}
    (hxy : Approximates x y) (hkl : ∀ v, Approximates (k v) (l v)) :
    Approximates (x >>= k) (y >>= l) := by
  intro st s h
  rw [ending_bind] at h ⊢
  rw [ending_bind]
  have hx : (x.ending st s).outcome ≠ none := by
    intro hnone
    simp [Ending.andThen, hnone] at h
  rw [hxy st s hx]
  revert h
  obtain ⟨_ | _ | v, st', s'⟩ := x.ending st s
  · exact fun _ => rfl
  · exact fun _ => rfl
  · exact hkl v st' s'

theorem Approximates.tryCatch {x y : RunOn σ (StateM S) β} {k : Interrupt → RunOn σ (StateM S) β}
    (hxy : Approximates x y) : Approximates (tryCatch x k) (tryCatch y k) := by
  intro st s h
  rw [ending_tryCatch] at h ⊢
  rw [ending_tryCatch]
  have hx : (x.ending st s).outcome ≠ none := by
    intro hnone
    simp [Ending.orElse, hnone] at h
  rw [hxy st s hx]

/-- With enough fuel, a run from given states ends in this way. -/
def EndsIn (x : Nat → RunOn σ (StateM S) β) (st : σ) (s : S) (e : Ending σ S β) : Prop :=
  e.outcome ≠ none ∧ ∃ n, (x n).ending st s = e

/-- A run that more fuel does not change ends in one way only. -/
theorem EndsIn.unique {x : Nat → RunOn σ (StateM S) β}
    (hx : ∀ n m, n ≤ m → Approximates (x n) (x m)) {st : σ} {s : S} {e e' : Ending σ S β}
    (h : EndsIn x st s e) (h' : EndsIn x st s e') : e = e' := by
  obtain ⟨hsome, n, rfl⟩ := h
  obtain ⟨hsome', m, rfl⟩ := h'
  rcases Nat.le_total n m with hle | hle
  · exact (hx n m hle st s hsome).symm
  · exact hx m n hle st s hsome'

section

variable {x : Nat → RunOn σ (StateM S) β} {k : Nat → β → RunOn σ (StateM S) γ} {st : σ} {s : S}

/-- If one unit of fuel more changes no run that ends, no more fuel does. -/
theorem approximates_of_le (h : ∀ n, Approximates (x n) (x (n + 1))) {n m : Nat} (hle : n ≤ m) :
    Approximates (x n) (x m) := by
  induction hle with
  | refl => exact .refl _
  | step _ ih => exact ih.trans (h _)

/-- Runs that all end in the same way. -/
theorem endsIn_of_ending {e e' : Ending σ S β} (h : ∀ n, (x n).ending st s = e')
    (hsome : e'.outcome ≠ none) : EndsIn x st s e ↔ e = e' := by
  constructor
  · rintro ⟨-, n, rfl⟩
    exact h n
  · rintro rfl
    exact ⟨hsome, 0, h 0⟩

/-- It does not matter whether there is one unit of fuel more. -/
theorem endsIn_succ_iff (hx : ∀ n m, n ≤ m → Approximates (x n) (x m)) {e : Ending σ S β} :
    EndsIn (fun n => x (n + 1)) st s e ↔ EndsIn x st s e := by
  constructor
  · rintro ⟨hsome, n, hn⟩
    exact ⟨hsome, n + 1, hn⟩
  · rintro ⟨hsome, n, rfl⟩
    exact ⟨hsome, n, hx n (n + 1) (Nat.le_succ n) st s hsome⟩

theorem endsIn_bind_of_ok {y : RunOn σ (StateM S) β} {st' : σ} {s' : S} {v : β}
    (hy : y.ending st s = ⟨some (.ok v), st', s'⟩) {e : Ending σ S γ} :
    EndsIn (fun n => y >>= k n) st s e ↔ EndsIn (k · v) st' s' e := by
  simp only [EndsIn, ending_bind_of_ok hy]

/-- A run that goes on where another ends: either that one ends with a value and this one
goes on with it, or that one is interrupted. -/
theorem endsIn_bind_iff (hx : ∀ n m, n ≤ m → Approximates (x n) (x m))
    (hk : ∀ v n m, n ≤ m → Approximates (k n v) (k m v)) {e : Ending σ S γ} :
    EndsIn (fun n => x n >>= k n) st s e ↔
      (∃ v st' s', EndsIn x st s ⟨some (.ok v), st', s'⟩ ∧ EndsIn (k · v) st' s' e) ∨
      ∃ i st' s', EndsIn x st s ⟨some (.error i), st', s'⟩ ∧ e = ⟨some (.error i), st', s'⟩ := by
  constructor
  · rintro ⟨hsome, n, hn⟩
    cases hfirst : (x n).ending st s with
    | mk outcome st' s' =>
        dsimp only at hn
        rw [ending_bind, hfirst] at hn
        rcases outcome with _ | i | v
        · exact absurd (hn ▸ rfl) hsome
        · exact .inr ⟨i, st', s', ⟨Option.some_ne_none _, n, hfirst⟩, hn.symm⟩
        · exact .inl ⟨v, st', s', ⟨Option.some_ne_none _, n, hfirst⟩, hsome, n, hn⟩
  · rintro (⟨v, st', s', ⟨hok, n, hn⟩, hsome, m, hm⟩ | ⟨i, st', s', ⟨hsome, n, hn⟩, rfl⟩)
    · refine ⟨hsome, max n m, ?_⟩
      have hfirst := hx n _ (Nat.le_max_left n m) st s (hn ▸ hok)
      have hrest := hk v m _ (Nat.le_max_right n m) st' s' (hm ▸ hsome)
      rw [hn] at hfirst
      exact (ending_bind_of_ok hfirst).trans (hrest.trans hm)
    · exact ⟨Option.some_ne_none _, n, ending_bind_of_error hn⟩

/-- A run that goes on where another is known to end. -/
theorem EndsIn.bind_iff (hx : ∀ n m, n ≤ m → Approximates (x n) (x m))
    (hk : ∀ v n m, n ≤ m → Approximates (k n v) (k m v)) {v : β} {st' : σ} {s' : S}
    (hends : EndsIn x st s ⟨some (.ok v), st', s'⟩) {e : Ending σ S γ} :
    EndsIn (fun n => x n >>= k n) st s e ↔ EndsIn (k · v) st' s' e := by
  rw [endsIn_bind_iff hx hk]
  constructor
  · rintro (⟨w, st₁, s₁, hfirst, hrest⟩ | ⟨i, st₁, s₁, hfirst, -⟩)
    · cases hends.unique hx hfirst
      exact hrest
    · cases hends.unique hx hfirst
  · exact fun hrest => .inl ⟨v, st', s', hends, hrest⟩

end

end RunOn

namespace Run

open RunOn

variable [Digest] [Host (StateM S)] [Store α σ]

/-- One unit of fuel more than `n` changes no run that ends. -/
structure SteadyAt (σ S : Type) [Host (StateM S)] [Store α σ] (n : Nat) : Prop where
  expr : ∀ (scope : ScopeId) (e : Expr α),
    Approximates (σ := σ) (S := S) (expr n scope e) (Run.expr (n + 1) scope e)
  exprs : ∀ (scope : ScopeId) (es : List (Expr α)),
    Approximates (σ := σ) (S := S) (exprs n scope es) (Run.exprs (n + 1) scope es)
  pairs : ∀ (scope : ScopeId) (ps : List (Expr α × Expr α)) (t : Table),
    Approximates (σ := σ) (S := S) (pairs n scope ps t) (Run.pairs (n + 1) scope ps t)
  stmt : ∀ (scope : ScopeId) (x : Stmt α),
    Approximates (σ := σ) (S := S) (stmt n scope x) (Run.stmt (n + 1) scope x)
  stmts : ∀ (scope : ScopeId) (xs : List (Stmt α)) (v : Value),
    Approximates (σ := σ) (S := S) (stmts n scope xs v) (Run.stmts (n + 1) scope xs v)
  loop : ∀ (scope : ScopeId) (c : Expr α) (xs : List (Stmt α)) (v : Value),
    Approximates (σ := σ) (S := S) (loop n scope c xs v) (Run.loop (n + 1) scope c xs v)
  apply : ∀ (callee : Value) (args : List Value),
    Approximates (σ := σ) (S := S) (apply n callee args) (Run.apply (n + 1) callee args)

theorem steady_zero : SteadyAt (α := α) σ S 0 where
  expr _ _ := outOfFuel_approximates _
  exprs _ _ := outOfFuel_approximates _
  pairs _ _ _ := outOfFuel_approximates _
  stmt _ _ := outOfFuel_approximates _
  stmts _ _ _ := outOfFuel_approximates _
  loop _ _ _ _ := outOfFuel_approximates _
  apply _ _ := outOfFuel_approximates _

section

variable {n : Nat} (ih : SteadyAt (α := α) σ S n)

include ih

theorem steady_expr (scope : ScopeId) (e : Expr α) :
    Approximates (σ := σ) (S := S) (expr (n + 1) scope e) (expr (n + 2) scope e) := by
  cases e with
  | ident | int | str | bool | func => exact .refl _
  | unary t op r => exact (ih.expr scope r).bind fun v => .refl _
  | binary t op l r => exact (ih.expr scope l).bind fun v => (ih.expr scope r).bind fun w => .refl _
  | assign t x e => exact (ih.expr scope e).bind fun v => .refl _
  | cond t c b alt =>
      refine (ih.expr scope c).bind fun v => ?_
      cases v.truthy with
      | true => exact ih.stmts scope b.statements .null
      | false =>
          cases alt with
          | none => exact .refl _
          | some b' => exact ih.stmts scope b'.statements .null
  | loop t c b => exact ih.loop scope c b.statements .null
  | call t e es =>
      refine (ih.expr scope e).bind fun callee => ?_
      refine (ih.exprs scope es).bind fun args => ?_
      exact (ih.apply callee args).bind fun v => .refl _
  | array t es => exact (ih.exprs scope es).bind fun vs => .refl _
  | index t l i => exact (ih.expr scope l).bind fun v => (ih.expr scope i).bind fun w => .refl _
  | hash t ps => exact (ih.pairs scope ps Table.empty).bind fun table => .refl _

theorem steady_exprs (scope : ScopeId) (es : List (Expr α)) :
    Approximates (σ := σ) (S := S) (exprs (n + 1) scope es) (exprs (n + 2) scope es) := by
  cases es with
  | nil => exact .refl _
  | cons e es => exact (ih.expr scope e).bind fun v => (ih.exprs scope es).bind fun vs => .refl _

theorem steady_pairs (scope : ScopeId) (ps : List (Expr α × Expr α)) (t : Table) :
    Approximates (σ := σ) (S := S) (pairs (n + 1) scope ps t) (pairs (n + 2) scope ps t) := by
  cases ps with
  | nil => exact .refl _
  | cons p ps =>
      obtain ⟨k, e⟩ := p
      refine (ih.expr scope k).bind fun kv => ?_
      cases kv.key? with
      | none => exact .refl _
      | some key => exact (ih.expr scope e).bind fun v => ih.pairs scope ps _

theorem steady_stmt (scope : ScopeId) (x : Stmt α) :
    Approximates (σ := σ) (S := S) (stmt (n + 1) scope x) (stmt (n + 2) scope x) := by
  cases x with
  | declare kind t x e => exact (ih.expr scope e).bind fun v => .refl _
  | ret t e => exact (ih.expr scope e).bind fun v => .refl _
  | expr t e => exact ih.expr scope e

theorem steady_stmts (scope : ScopeId) (xs : List (Stmt α)) (v : Value) :
    Approximates (σ := σ) (S := S) (stmts (n + 1) scope xs v) (stmts (n + 2) scope xs v) := by
  cases xs with
  | nil => exact .refl _
  | cons x xs => exact (ih.stmt scope x).bind fun w => ih.stmts scope xs w

theorem steady_loop (scope : ScopeId) (c : Expr α) (xs : List (Stmt α)) (v : Value) :
    Approximates (σ := σ) (S := S) (loop (n + 1) scope c xs v) (loop (n + 2) scope c xs v) := by
  refine (ih.expr scope c).bind fun w => ?_
  cases w.truthy with
  | true => exact (ih.stmts scope xs .null).bind fun u => ih.loop scope c xs u
  | false => exact .refl _

theorem steady_apply (callee : Value) (args : List Value) :
    Approximates (σ := σ) (S := S) (apply (n + 1) callee args) (apply (n + 2) callee args) := by
  cases callee with
  | func id =>
      refine (Approximates.refl (Run.see (Heap.closure? · id))).bind fun found => ?_
      cases found with
      | none => exact .refl _
      | some c =>
          by_cases hlen : c.params.length = args.length
          · simp only [if_pos hlen]
            refine (Approximates.refl _).bind fun scope => ?_
            exact (ih.stmts scope c.body.statements .null).tryCatch
          · simp only [if_neg hlen]
            exact .refl _
  | _ => exact .refl _

end

theorem steadyAt (n : Nat) : SteadyAt (α := α) σ S n := by
  induction n with
  | zero => exact steady_zero
  | succ n ih =>
      exact ⟨steady_expr ih, steady_exprs ih, steady_pairs ih, steady_stmt ih, steady_stmts ih,
        steady_loop ih, steady_apply ih⟩

/-- A program that ends, ends in the same way with more fuel. -/
theorem program_steady (scope : ScopeId) (p : Program α) {n m : Nat} (h : n ≤ m) :
    Approximates (σ := σ) (S := S) (program n scope p) (program m scope p) := by
  have hstmts := approximates_of_le
    (x := fun n => (stmts n scope p.statements .null : RunOn σ (StateM S) Value))
    (fun n => (steadyAt n).stmts scope p.statements .null) h
  exact hstmts.tryCatch.tryCatch

omit [Store α σ] in
/-- A text that ends, ends in the same way with more fuel. -/
theorem annotatedText_steady [Store (Token Position) σ] (scope : ScopeId) (source : String)
    {n m : Nat} (h : n ≤ m) :
    Approximates (σ := σ) (S := S) (annotatedText n scope source)
      (annotatedText m scope source) := by
  rw [annotatedText, annotatedText]
  cases parse source with
  | error errors => exact .refl _
  | ok p => exact (program_steady scope p h).bind fun v => .refl _

omit [Store α σ] in
/-- A text that ends without the tokens of its functions, ends in the same way with more fuel. -/
theorem text_steady (scope : ScopeId) (source : String) {n m : Nat} (h : n ≤ m) :
    Approximates (S := S) (text n scope source) (text m scope source) := by
  rw [text, text]
  cases parse source with
  | error errors => exact .refl _
  | ok p => exact (program_steady scope p.erase h).bind fun v => .refl _

end Run

end MonkeyLang
