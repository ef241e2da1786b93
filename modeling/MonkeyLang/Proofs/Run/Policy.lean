import MonkeyLang.Proofs.Run.Ending

/-!
# Policies

What can be said of all states that a run goes through, and of all values that
it comes upon, is put as a policy.  A policy is sound if it goes along with each
single operation on a heap.  Then whole runs keep to it: this is shown once, by
induction on the fuel, for all policies.
-/

namespace MonkeyLang

variable {α σ S β γ : Type}

/-- Numbers, texts, truth values, `null` and builtin functions: the values that
are what they are in every heap. -/
def Value.IsAtom : Value → Prop
  | .int _ | .str _ | .bool _ | .null | .builtin _ => True
  | _ => False

/-- What is said of the states of a run and of the values in them. -/
structure Policy (σ : Type) where
  /-- What holds of all states. -/
  Holds : σ → Prop
  /-- How a later state comes from an earlier one. -/
  Leads : σ → σ → Prop
  /-- What holds of all values that the run comes upon. -/
  Fit : σ → Value → Prop
  /-- What holds of all scopes in which the run evaluates. -/
  Within : σ → ScopeId → Prop

namespace Policy

/-- A change of the heap of a state keeps to the policy, and what comes of it
satisfies `Q`. -/
structure Admits [Store α σ] (P : Policy σ) (st : σ) (r : β × Heap α) (Q : σ → β → Prop) :
    Prop where
  holds : P.Holds (Store.put st r.2)
  leads : P.Leads st (Store.put st r.2)
  result : Q (Store.put st r.2) r.1

/-- A policy that every operation on a heap keeps to. -/
structure Sound [Store α σ] (P : Policy σ) : Prop where
  refl : ∀ st, P.Leads st st
  trans : ∀ {st st' st''}, P.Leads st st' → P.Leads st' st'' → P.Leads st st''
  fit_mono : ∀ {st st' v}, P.Leads st st' → P.Fit st v → P.Fit st' v
  within_mono : ∀ {st st' scope}, P.Leads st st' → P.Within st scope → P.Within st' scope
  atom : ∀ {st v}, Value.IsAtom v → P.Fit st v
  ret : ∀ {st v}, P.Fit st (.ret v) → P.Fit st v
  lookup : ∀ {st scope x v}, P.Holds st → P.Within st scope →
    (Store.heap st).lookup scope x = some v → P.Fit st v
  element : ∀ {st id v}, P.Holds st → P.Fit st (.array id) →
    v ∈ (Store.heap st).elements id → P.Fit st v
  pair : ∀ {st id p}, P.Holds st → P.Fit st (.hash id) →
    p ∈ ((Store.heap st).table id).pairs → P.Fit st p.2
  array : ∀ {st es}, P.Holds st → (∀ v ∈ es, P.Fit st v) →
    P.Admits st ((Store.heap st).alloc (.array es)) fun st' id => P.Fit st' (.array id)
  hash : ∀ {st t}, P.Holds st → (∀ p ∈ Table.pairs t, P.Fit st p.2) →
    P.Admits st ((Store.heap st).alloc (.hash t)) fun st' id => P.Fit st' (.hash id)
  func : ∀ {st scope} idents body, P.Holds st → P.Within st scope →
    P.Admits st ((Store.heap st).alloc (.func ⟨idents, body, scope⟩))
      fun st' id => P.Fit st' (.func id)
  pop : ∀ {st id}, P.Holds st → P.Fit st (.array id) →
    P.Admits st ((Store.heap st).pop id) fun st' last => ∀ v, last = some v → P.Fit st' v
  declare : ∀ {st scope v} kind x, P.Holds st → P.Within st scope → P.Fit st v →
    P.Admits st ((Store.heap st).declare kind scope x v) fun _ _ => True
  assign : ∀ {st scope v} x, P.Holds st → P.Within st scope → P.Fit st v →
    P.Admits st ((Store.heap st).assign scope x v) fun _ _ => True
  enter : ∀ {st id f args}, P.Holds st → P.Fit st (.func id) →
    (Store.heap st).closure? id = some f → (∀ v ∈ args, P.Fit st v) →
    P.Admits st ((Store.heap st).enter f.scope f.params args) P.Within

/-- A run from the state `st` keeps to the policy; the value that it ends with
satisfies `Q`, and a value that it returns satisfies `R`. -/
structure Keeps (P : Policy σ) (st : σ) (Q : σ → β → Prop) (R : σ → Value → Prop)
    (e : Ending σ S β) : Prop where
  holds : P.Holds e.state
  leads : P.Leads st e.state
  value : ∀ v, e.outcome = some (.ok v) → Q e.state v
  returned : ∀ v, e.outcome = some (.error (.ret v)) → R e.state v

/-- A run from the state `st` keeps to the policy, whatever state the host is
in. -/
def Runs (P : Policy σ) (st : σ) (x : RunOn σ (StateM S) β) (Q : σ → β → Prop)
    (R : σ → Value → Prop) : Prop :=
  ∀ s, P.Keeps st Q R (x.ending st s)

/-! ## Ways of putting runs together -/

section

variable {P : Policy σ} {st : σ} {Q : σ → β → Prop} {R : σ → Value → Prop}

/-- What nothing that is returned satisfies. -/
def Nothing : σ → Value → Prop :=
  fun _ _ => False

theorem Runs.mono {x : RunOn σ (StateM S) β} {Q' : σ → β → Prop} {R' : σ → Value → Prop}
    (h : P.Runs st x Q R) (hQ : ∀ st v, Q st v → Q' st v) (hR : ∀ st v, R st v → R' st v) :
    P.Runs st x Q' R' := by
  intro s
  obtain ⟨hholds, hleads, hvalue, hreturned⟩ := h s
  exact ⟨hholds, hleads, fun v hv => hQ _ v (hvalue v hv), fun v hv => hR _ v (hreturned v hv)⟩

section

variable [Store α σ] (hP : P.Sound) (hst : P.Holds st)

include hP hst

/-- A run that ends in the state that it began in. -/
theorem keeps_same {o : Option (Except Interrupt β)} {s : S}
    (hvalue : ∀ v, o = some (.ok v) → Q st v)
    (hreturned : ∀ v, o = some (.error (.ret v)) → R st v) :
    P.Keeps st Q R (⟨o, st, s⟩ : Ending σ S β) :=
  ⟨hst, hP.refl st, hvalue, hreturned⟩

theorem runs_pure {v : β} (hv : Q st v) : P.Runs st (pure v : RunOn σ (StateM S) β) Q R := by
  intro s
  rw [RunOn.ending_pure]
  apply keeps_same hP hst
  · rintro _ ⟨⟩
    exact hv
  · rintro _ ⟨⟩

theorem runs_outOfFuel : P.Runs st (Run.outOfFuel : RunOn σ (StateM S) β) Q R := by
  intro s
  rw [RunOn.ending_outOfFuel]
  apply keeps_same hP hst
  · rintro _ ⟨⟩
  · rintro _ ⟨⟩

theorem runs_interrupt {i : Interrupt} (hi : ∀ v, i = .ret v → R st v) :
    P.Runs st (Run.interrupt i : RunOn σ (StateM S) β) Q R := by
  intro s
  rw [RunOn.ending_interrupt]
  apply keeps_same hP hst
  · rintro _ ⟨⟩
  · intro v hv
    exact hi v (Except.error.inj (Option.some.inj hv))

theorem runs_raise (e : RuntimeError) :
    P.Runs st (Run.raise e : RunOn σ (StateM S) β) Q R := by
  refine runs_interrupt hP hst ?_
  rintro _ ⟨⟩

theorem runs_ofExcept {r : Except RuntimeError β} (hr : ∀ v, r = .ok v → Q st v) :
    P.Runs st (Run.ofExcept r : RunOn σ (StateM S) β) Q R := by
  cases r with
  | ok v => exact runs_pure hP hst (hr v rfl)
  | error e => exact runs_raise hP hst e

theorem runs_settle {v : Value} (hv : P.Fit st v) :
    P.Runs st (Run.settle v : RunOn σ (StateM S) Value) P.Fit P.Fit := by
  cases v with
  | error m =>
      refine runs_interrupt hP hst ?_
      rintro _ ⟨⟩
  | ret v =>
      refine runs_interrupt hP hst ?_
      rintro _ ⟨⟩
      exact hP.ret hv
  | _ => exact runs_pure hP hst hv

theorem runs_onHost (x : StateM S β) :
    P.Runs st (Run.onHost x : RunOn σ (StateM S) β) (fun _ _ => True) R := by
  intro s
  rw [RunOn.ending_onHost]
  apply keeps_same hP hst
  · exact fun _ _ => trivial
  · rintro _ ⟨⟩

theorem runs_see {f : Heap α → β} (hf : Q st (f (Store.heap st))) :
    P.Runs st (Run.see f : RunOn σ (StateM S) β) Q R := by
  intro s
  rw [RunOn.ending_see]
  apply keeps_same hP hst
  · rintro _ ⟨⟩
    exact hf
  · rintro _ ⟨⟩

end

theorem runs_change [Store α σ] {f : Heap α → β × Heap α}
    (hf : P.Admits st (f (Store.heap st)) Q) :
    P.Runs st (Run.change f : RunOn σ (StateM S) β) Q R := by
  intro s
  rw [RunOn.ending_change]
  refine ⟨hf.holds, hf.leads, ?_, ?_⟩
  · rintro _ ⟨⟩
    exact hf.result
  · rintro _ ⟨⟩

variable [Store α σ] (hP : P.Sound)

include hP

theorem Runs.bind {x : RunOn σ (StateM S) β} {k : β → RunOn σ (StateM S) γ} {Q' : σ → γ → Prop}
    (hx : P.Runs st x Q R)
    (hk : ∀ st' v, P.Holds st' → P.Leads st st' → Q st' v → P.Runs st' (k v) Q' R) :
    P.Runs st (x >>= k) Q' R := by
  intro s
  rw [RunOn.ending_bind]
  obtain ⟨hholds, hleads, hvalue, hreturned⟩ := hx s
  revert hholds hleads hvalue hreturned
  obtain ⟨_ | i | v, st', s'⟩ := x.ending st s
  · intro hholds hleads _ _
    refine ⟨hholds, hleads, ?_, ?_⟩
    · rintro _ ⟨⟩
    · rintro _ ⟨⟩
  · intro hholds hleads _ hreturned
    refine ⟨hholds, hleads, ?_, ?_⟩
    · rintro _ ⟨⟩
    · rintro v ⟨⟩
      exact hreturned v rfl
  · intro hholds hleads hvalue _
    obtain ⟨hholds', hleads', hvalue', hreturned'⟩ :=
      hk st' v hholds hleads (hvalue v rfl) s'
    exact ⟨hholds', hP.trans hleads hleads', hvalue', hreturned'⟩

theorem runs_rebind {f : Heap α → Except BindingError Unit × Heap α}
    (hf : P.Admits st (f (Store.heap st)) fun _ _ => True) :
    P.Runs st (Run.rebind f : RunOn σ (StateM S) Unit) (fun _ _ => True) R := by
  refine Runs.bind hP (runs_change hf) fun st' r hst' _ _ => ?_
  cases r with
  | ok => exact runs_pure hP hst' trivial
  | error e => exact runs_raise hP hst' _

theorem Runs.tryCatch {x : RunOn σ (StateM S) β} {k : Interrupt → RunOn σ (StateM S) β}
    {Q' : σ → β → Prop} {R' : σ → Value → Prop} (hx : P.Runs st x Q R)
    (hQ : ∀ st' v, Q st' v → Q' st' v)
    (hk : ∀ st' i, P.Holds st' → P.Leads st st' → (∀ v, i = .ret v → R st' v) →
      P.Runs st' (k i) Q' R') :
    P.Runs st (tryCatch x k) Q' R' := by
  intro s
  rw [RunOn.ending_tryCatch]
  obtain ⟨hholds, hleads, hvalue, hreturned⟩ := hx s
  revert hholds hleads hvalue hreturned
  obtain ⟨_ | i | v, st', s'⟩ := x.ending st s
  · intro hholds hleads _ _
    refine ⟨hholds, hleads, ?_, ?_⟩
    · rintro _ ⟨⟩
    · rintro _ ⟨⟩
  · intro hholds hleads _ hreturned
    have hi : ∀ v, i = .ret v → R st' v := fun v hv => hreturned v (by rw [hv])
    obtain ⟨hholds', hleads', hvalue', hreturned'⟩ := hk st' i hholds hleads hi s'
    exact ⟨hholds', hP.trans hleads hleads', hvalue', hreturned'⟩
  · intro hholds hleads hvalue _
    refine ⟨hholds, hleads, fun w hw => hQ _ w (hvalue w hw), ?_⟩
    rintro _ ⟨⟩

/-- What a function returns is what a call of it comes to, and no call returns
from the function around it. -/
theorem Runs.returned {x : RunOn σ (StateM S) Value} {Q : σ → Value → Prop}
    (hx : P.Runs st x Q Q) : P.Runs st (Run.returned x) Q Nothing := by
  refine hx.tryCatch hP (fun _ _ h => h) fun st' i hst' _ hi => ?_
  cases i with
  | ret v => exact runs_pure hP hst' (hi v rfl)
  | error | exit =>
      refine runs_interrupt hP hst' ?_
      rintro _ ⟨⟩

theorem Runs.reported {x : RunOn σ (StateM S) Value} {Q : σ → Value → Prop}
    (hx : P.Runs st x Q R) :
    P.Runs st (Run.reported x) (fun st v => (∃ m, v = .error m) ∨ Q st v) R := by
  refine hx.tryCatch hP (fun _ _ h => Or.inr h) fun st' i hst' _ hi => ?_
  cases i with
  | error m => exact runs_pure hP hst' (Or.inl ⟨m, rfl⟩)
  | ret | exit => exact runs_interrupt hP hst' hi

end

end Policy

end MonkeyLang
