import MonkeyLang.Proofs.Run.Comparison
import MonkeyLang.Proofs.Run.Fuel

/-!
# Runs in other states and on other hosts

The states of a run, and those of a host, may stand for states of another kind.  Where the
heap is kept alike and the host answers alike, a run does the same to the states for which
its own stand.
-/

namespace MonkeyLang

variable {α α' σ τ S T β γ : Type}

namespace Ending

/-- The same ending in states of other kinds. -/
def carry (φ : σ → τ) (ψ : S → T) (e : Ending σ S β) : Ending τ T β :=
  ⟨e.outcome, φ e.state, ψ e.host⟩

variable {φ : σ → τ} {ψ : S → T}

theorem carry_andThen (e : Ending σ S β) {k : β → σ → S → Ending σ S γ}
    {l : β → τ → T → Ending τ T γ} (h : ∀ v st s, l v (φ st) (ψ s) = (k v st s).carry φ ψ) :
    (e.carry φ ψ).andThen l = (e.andThen k).carry φ ψ := by
  obtain ⟨_ | _ | v, st, s⟩ := e
  · rfl
  · rfl
  · exact h v st s

theorem carry_orElse (e : Ending σ S β) {k : Interrupt → σ → S → Ending σ S β}
    {l : Interrupt → τ → T → Ending τ T β}
    (h : ∀ i st s, l i (φ st) (ψ s) = (k i st s).carry φ ψ) :
    (e.carry φ ψ).orElse l = (e.orElse k).carry φ ψ := by
  obtain ⟨_ | i | _, st, s⟩ := e
  · rfl
  · exact h i st s
  · rfl

end Ending

/-- Where a state of one kind keeps a heap, the corresponding state keeps that
heap with the annotations changed. -/
structure Store.Along [Store α σ] [Store α' τ] (f : α → α') (φ : σ → τ) : Prop where
  heap : ∀ st : σ, Store.heap (φ st) = (Store.heap st).map f
  put : ∀ (st : σ) (h : Heap α), φ (Store.put st h) = Store.put (φ st) (h.map f)

/-- A heap can be kept as it is. -/
theorem Store.along_id [Store α σ] : Store.Along (σ := σ) (id : α → α) id where
  heap _ := (Heap.map_id _).symm
  put _ h := congrArg (Store.put _) (Heap.map_id h).symm

namespace Host

/-- What `y` does in the state `ψ s` is what `x` does in the state `s`. -/
def Answers (ψ : S → T) (x : StateM S β) (y : StateM T β) : Prop :=
  ∀ s, y.run (ψ s) = ((x.run s).1, ψ (x.run s).2)

/-- Whatever is asked of the host in a state, the other host answers in the corresponding
state. -/
structure Along [Host (StateM S)] [Host (StateM T)] (ψ : S → T) : Prop where
  write : ∀ text, Answers ψ (Host.write text) (Host.write text)
  readLine : Answers ψ Host.readLine Host.readLine
  exit : ∀ code, Answers ψ (Host.exit code) (Host.exit code)
  readFile : ∀ path, Answers ψ (Host.readFile path) (Host.readFile path)
  writeFile : ∀ path contents,
    Answers ψ (Host.writeFile path contents) (Host.writeFile path contents)

theorem along_id [Host (StateM S)] : Along (id : S → S) where
  write _ _ := rfl
  readLine _ := rfl
  exit _ _ := rfl
  readFile _ _ := rfl
  writeFile _ _ _ := rfl

end Host

namespace RunOn

/-- The run `y` does in the states `φ st` and `ψ s` what `x` does in `st` and `s`. -/
def Carries (φ : σ → τ) (ψ : S → T) (x : RunOn σ (StateM S) β) (y : RunOn τ (StateM T) β) : Prop :=
  ∀ st s, y.ending (φ st) (ψ s) = (x.ending st s).carry φ ψ

variable {φ : σ → τ} {ψ : S → T}

theorem carries_interrupt (i : Interrupt) :
    Carries φ ψ (Run.interrupt i : RunOn σ (StateM S) β) (Run.interrupt i) :=
  fun _ _ => rfl

theorem carries_onHost {x : StateM S β} {y : StateM T β} (h : Host.Answers ψ x y) :
    Carries φ ψ (Run.onHost x) (Run.onHost y) := by
  intro st s
  rw [ending_onHost, ending_onHost, h s]
  rfl

theorem Carries.bind {x : RunOn σ (StateM S) β} {y : RunOn τ (StateM T) β}
    {k : β → RunOn σ (StateM S) γ} {l : β → RunOn τ (StateM T) γ} (hx : Carries φ ψ x y)
    (h : ∀ v, Carries φ ψ (k v) (l v)) : Carries φ ψ (x >>= k) (y >>= l) := by
  intro st s
  rw [ending_bind, ending_bind, hx st s]
  exact Ending.carry_andThen _ fun v => h v

theorem Carries.tryCatch {x : RunOn σ (StateM S) β} {y : RunOn τ (StateM T) β}
    {k : Interrupt → RunOn σ (StateM S) β} {l : Interrupt → RunOn τ (StateM T) β}
    (hx : Carries φ ψ x y) (h : ∀ i, Carries φ ψ (k i) (l i)) :
    Carries φ ψ (tryCatch x k) (tryCatch y l) := by
  intro st s
  rw [ending_tryCatch, ending_tryCatch, hx st s]
  exact Ending.carry_orElse _ fun i => h i

/-- Runs that are carried along end where those end from which they are carried. -/
theorem endsIn_carry_iff {x : Nat → RunOn σ (StateM S) β} {y : Nat → RunOn τ (StateM T) β}
    (h : ∀ n, Carries φ ψ (x n) (y n)) {st : σ} {s : S} {e' : Ending τ T β} :
    EndsIn y (φ st) (ψ s) e' ↔ ∃ e, EndsIn x st s e ∧ e.carry φ ψ = e' := by
  constructor
  · rintro ⟨hsome, n, rfl⟩
    rw [h n] at hsome ⊢
    exact ⟨_, ⟨hsome, n, rfl⟩, rfl⟩
  · rintro ⟨e, ⟨hsome, n, rfl⟩, rfl⟩
    exact ⟨hsome, n, h n st s⟩

variable [Host (StateM S)] [Host (StateM T)] [Store α σ] [Store α' τ] {f : α → α'}

theorem carries_congruence (hφ : Store.Along f φ) (hψ : Host.Along ψ) :
    FullCongruence f fun β => Carries (β := β) φ ψ where
  pure _ _ _ := rfl
  outOfFuel _ _ := rfl
  error _ := carries_interrupt _
  ret _ := carries_interrupt _
  bind := Carries.bind
  returned hx := hx.tryCatch fun i => by cases i <;> exact fun _ _ => rfl
  reported hx := hx.tryCatch fun i => by cases i <;> exact fun _ _ => rfl
  see h st s := by
    rw [ending_see, ending_see, hφ.heap, h]
    rfl
  closure := by
    intro β id k l h st s
    rw [ending_bind, ending_bind, ending_see, ending_see, hφ.heap, Heap.closure?_map]
    exact h _ st s
  change h st s := by
    rw [ending_change, ending_change, hφ.heap, h, Ending.carry, hφ.put]
    rfl
  write text := carries_onHost (hψ.write text)
  readLine := carries_onHost hψ.readLine
  exitWith code := by
    refine (carries_onHost (hψ.exit code)).bind fun ends => ?_
    cases ends <;> exact fun _ _ => rfl
  readFile path := carries_onHost (hψ.readFile path)
  writeFile path contents := carries_onHost (hψ.writeFile path contents)

end RunOn

end MonkeyLang
