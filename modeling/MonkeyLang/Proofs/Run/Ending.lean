import MonkeyLang.Run.Tree

/-!
# Where runs end

A host whose actions are steps of a machine with states `S` makes a run a
function: from a state of the run and a state of the host to an outcome and two
states.  Each way of putting runs together has its equation.
-/

namespace MonkeyLang

variable {α σ S β γ : Type}

/-- Where a run ends: with what outcome, unless there was not enough fuel, and
in which states of the run and of the host. -/
structure Ending (σ S β : Type) where
  outcome : Option (Except Interrupt β)
  state : σ
  host : S

namespace Ending

/-- What comes after an ending: something else after a value, nothing after an
interrupt. -/
def andThen (e : Ending σ S β) (k : β → σ → S → Ending σ S γ) : Ending σ S γ :=
  match e.outcome with
  | none => ⟨none, e.state, e.host⟩
  | some (.error i) => ⟨some (.error i), e.state, e.host⟩
  | some (.ok v) => k v e.state e.host

/-- What comes after an ending if interrupts are seen to. -/
def orElse (e : Ending σ S β) (k : Interrupt → σ → S → Ending σ S β) : Ending σ S β :=
  match e.outcome with
  | some (.error i) => k i e.state e.host
  | _ => e

end Ending

namespace RunOn

/-- Where a run from given states ends. -/
def ending (x : RunOn σ (StateM S) β) (st : σ) (s : S) : Ending σ S β :=
  let r := (x.start st).run s
  ⟨r.1.1, r.1.2, r.2⟩

variable (st : σ) (s : S)

theorem ending_pure (v : β) :
    (pure v : RunOn σ (StateM S) β).ending st s = ⟨some (.ok v), st, s⟩ := rfl

theorem ending_bind (x : RunOn σ (StateM S) β) (k : β → RunOn σ (StateM S) γ) :
    (x >>= k).ending st s = (x.ending st s).andThen fun v => (k v).ending := by
  have h : ∀ r, (x.start st).run s = r →
      (x >>= k).ending st s = (Ending.mk r.1.1 r.1.2 r.2).andThen fun v => (k v).ending := by
    intro r hr
    change x st s = r at hr
    change (let q := OptionT.bind (m := StateT σ (StateM S)) x (ExceptT.bindCont k) st s
      Ending.mk q.1.1 q.1.2 q.2) = _
    simp only [OptionT.bind, OptionT.mk, bind, StateT.bind, hr]
    obtain ⟨⟨_ | _ | v, st'⟩, s'⟩ := r <;> rfl
  exact h _ rfl

/-- After a run that ends with a value comes what is done with the value. -/
theorem ending_bind_of_ok {x : RunOn σ (StateM S) β} {k : β → RunOn σ (StateM S) γ} {st st' : σ}
    {s s' : S} {v : β} (hx : x.ending st s = ⟨some (.ok v), st', s'⟩) :
    (x >>= k).ending st s = (k v).ending st' s' := by
  rw [ending_bind, hx]
  rfl

/-- Nothing comes after a run that is interrupted. -/
theorem ending_bind_of_error {x : RunOn σ (StateM S) β} {k : β → RunOn σ (StateM S) γ}
    {st st' : σ} {s s' : S} {i : Interrupt} (hx : x.ending st s = ⟨some (.error i), st', s'⟩) :
    (x >>= k).ending st s = ⟨some (.error i), st', s'⟩ := by
  rw [ending_bind, hx]
  rfl

/-- A run that ends with a value has done its first part with a value. -/
theorem ending_bind_eq_ok {x : RunOn σ (StateM S) β} {k : β → RunOn σ (StateM S) γ}
    {st st' : σ} {s s' : S} {w : γ} :
    (x >>= k).ending st s = ⟨some (.ok w), st', s'⟩ ↔
      ∃ v st₁ s₁, x.ending st s = ⟨some (.ok v), st₁, s₁⟩ ∧
        (k v).ending st₁ s₁ = ⟨some (.ok w), st', s'⟩ := by
  rw [ending_bind]
  obtain ⟨_ | _ | v, st₁, s₁⟩ := x.ending st s
  · simp [Ending.andThen]
  · simp [Ending.andThen]
  · constructor
    · exact fun hk => ⟨v, st₁, s₁, rfl, hk⟩
    · rintro ⟨_, _, _, ⟨⟩, hk⟩
      exact hk

theorem ending_tryCatch (x : RunOn σ (StateM S) β) (k : Interrupt → RunOn σ (StateM S) β) :
    (tryCatch x k).ending st s = (x.ending st s).orElse fun i => (k i).ending := by
  have h : ∀ r, (x.start st).run s = r →
      (tryCatch x k).ending st s = (Ending.mk r.1.1 r.1.2 r.2).orElse fun i => (k i).ending := by
    intro r hr
    change x st s = r at hr
    simp only [ending, start, tryCatch, tryCatchThe, MonadExceptOf.tryCatch, ExceptT.tryCatch,
      ExceptT.run, ExceptT.mk, OptionT.bind, OptionT.mk, bind, StateT.bind, OptionT.run,
      StateT.run, hr]
    obtain ⟨⟨_ | _ | v, st'⟩, s'⟩ := r <;> rfl
  exact h _ rfl

theorem ending_outOfFuel :
    (Run.outOfFuel : RunOn σ (StateM S) β).ending st s = ⟨none, st, s⟩ := rfl

theorem ending_interrupt (i : Interrupt) :
    (Run.interrupt i : RunOn σ (StateM S) β).ending st s = ⟨some (.error i), st, s⟩ := rfl

theorem ending_onHost (x : StateM S β) :
    (Run.onHost x : RunOn σ (StateM S) β).ending st s =
      ⟨some (.ok (x.run s).1), st, (x.run s).2⟩ := rfl

section

variable [Store α σ]

theorem ending_see (f : Heap α → β) :
    (Run.see f : RunOn σ (StateM S) β).ending st s =
      ⟨some (.ok (f (Store.heap st))), st, s⟩ := rfl

theorem ending_change (f : Heap α → β × Heap α) :
    (Run.change f : RunOn σ (StateM S) β).ending st s =
      ⟨some (.ok (f (Store.heap st)).1), Store.put st (f (Store.heap st)).2, s⟩ := rfl

end

end RunOn

/-- The only interrupt that comes out of a program is the end of the process. -/
theorem Run.exit_of_program [Digest] [Host (StateM S)] [Store α σ] {n : Nat} {scope : ScopeId}
    {p : Program α} {st : σ} {s : S} {i : Interrupt}
    (hi : ((Run.program n scope p).ending st s).outcome = some (.error i)) :
    ∃ code, i = .exit code := by
  rw [Run.program, Run.reported, RunOn.ending_tryCatch, Run.returned,
    RunOn.ending_tryCatch] at hi
  revert hi
  obtain ⟨_ | (m | v | code) | v, st', s'⟩ :=
    (Run.stmts n scope p.statements .null).ending st s
  all_goals rintro ⟨⟩
  exact ⟨code, rfl⟩

/-- A builtin function is called with as many arguments as it wants, or else the
call is refused. -/
@[elab_as_elim]
theorem Builtin.call_cases {motive : Builtin → List Value → Prop}
    (len : ∀ v, motive .len [v]) (first : ∀ v, motive .first [v])
    (last : ∀ v, motive .last [v]) (rest : ∀ v, motive .rest [v])
    (push : ∀ v x, motive .push [v, x]) (pop : ∀ v, motive .pop [v])
    (print : ∀ vs, motive .print vs) (input : motive .input [])
    (prompt : ∀ v, motive .input [v]) (exit : motive .exit []) (code : ∀ v, motive .exit [v])
    (read : ∀ v, motive .read [v]) (write : ∀ v x, motive .write [v, x])
    (refused : ∀ b args, (∀ {α σ : Type} {m : Type → Type} [Monad m] [Host m] [Store α σ],
      (b.call args : RunOn σ m Value) = b.wrongCount args) → motive b args)
    (b : Builtin) (args : List Value) : motive b args := by
  match b, args with
  | .len, [v] => exact len v
  | .first, [v] => exact first v
  | .last, [v] => exact last v
  | .rest, [v] => exact rest v
  | .push, [v, x] => exact push v x
  | .pop, [v] => exact pop v
  | .print, vs => exact print vs
  | .input, [] => exact input
  | .input, [v] => exact prompt v
  | .exit, [] => exact exit
  | .exit, [v] => exact code v
  | .read, [v] => exact read v
  | .write, [v, x] => exact write v x
  | .len, [] | .first, [] | .last, [] | .rest, [] | .pop, [] | .read, []
  | .push, [] | .push, [_] | .write, [] | .write, [_]
  | .len, _ :: _ :: _ | .first, _ :: _ :: _ | .last, _ :: _ :: _ | .rest, _ :: _ :: _
  | .pop, _ :: _ :: _ | .read, _ :: _ :: _ | .input, _ :: _ :: _
  | .push, _ :: _ :: _ :: _ | .write, _ :: _ :: _ :: _ => exact refused _ _ rfl
  | .exit, v :: _ :: _ =>
      refine refused _ _ ?_
      cases v <;> exact rfl

end MonkeyLang
