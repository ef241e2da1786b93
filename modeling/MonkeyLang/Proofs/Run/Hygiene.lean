import MonkeyLang.Host.Memory
import MonkeyLang.Proofs.Run.Execution

/-!
# Calls are hygienic

The body of a function is run in a scope that is made for the call.  So names are
declared in scopes that are made during the call only, and all that a call can
do to a scope that was there before is to change the value of a variable, by
assigning to it.
-/

namespace MonkeyLang

open RunOn

variable {α S : Type}

/-- The scope in which something is to be done. -/
def Task.scope? : Task α → Option ScopeId
  | .apply _ _ => none
  | .expr scope _ | .exprs scope _ | .pairs scope _ _ | .stmt scope _ | .stmts scope _ _
  | .loop scope _ _ _ | .program scope _ => some scope

namespace Job

/-- The call of a function. -/
abbrev call (callee : Value) (args : List Value) (h : Heap α) (s : S) : Job α S :=
  ⟨.apply callee args, h, s⟩

variable [Digest] [Host (StateM S)] {c d : Job α S} {h h' : Heap α} {s : S}

/-- A variable has come to another value by an assignment in the midst of a job. -/
def Assigns (c : Job α S) (t : ScopeId) (x : String) (h h' : Heap α) : Prop :=
  ∃ w v, h.bound? t .var x = some w ∧ h'.bound? t .var x = some v ∧
    ∃ scope h₁ u, c.Executes (.assign scope x v) h₁ ∧ h₁.holder? scope x = some (t, ⟨.var, u⟩)

/-- In a scope in which a name is not declared, the name can only be assigned to. -/
theorem Changes.bound {t : ScopeId} {x : String} (hc : c.Changes h h')
    (ht : t < h.scopes.size)
    (hdeclare : ∀ kind v h₁, ¬c.Executes (.declare kind t x v) h₁) :
    h'.bound? t .val x = h.bound? t .val x ∧
      (h'.bound? t .var x = h.bound? t .var x ∨ c.Assigns t x h h') := by
  induction hc with
  | refl => exact ⟨rfl, Or.inl rfl⟩
  | @tail h₁ h₂ hc hstep ih =>
      obtain ⟨op, hop, rfl⟩ := hstep
      have ht₁ : t < h₁.scopes.size := Nat.lt_of_lt_of_le ht (Changes.size_scopes_le hc)
      rcases Heap.bound?_apply_cases ht₁ op x with
        hsame | ⟨kind, v, rfl⟩ | ⟨scope, v, u, rfl, hholder, hnow, hval⟩
      · rw [Assigns, hsame, hsame]
        exact ih
      · exact (hdeclare kind v h₁ hop).elim
      · refine ⟨hval.trans ih.1, Or.inr ?_⟩
        have hbefore := Heap.bound?_of_binding? (Heap.mem_of_holderIn hholder).2
        have hvar : ∃ w, h.bound? t .var x = some w := by
          rcases ih.2 with hsame | ⟨w, -, hw, -⟩
          · exact ⟨u, hsame.symm.trans hbefore⟩
          · exact ⟨w, hw⟩
        obtain ⟨w, hw⟩ := hvar
        exact ⟨w, v, hw, hnow, scope, h₁, u, hop, hholder⟩

/-! ## The scopes of a call -/

/-- A part is evaluated in the same scope. -/
theorem TurnsTo.scope?_eq (hcd : c.TurnsTo d) {scope : ScopeId}
    (hd : d.task.scope? = some scope) : c.task.scope? = some scope := by
  cases hcd with
  | application => cases hd
  | _ => exact hd

/-- Whatever is done in the midst of a call is done in a scope that is made during
the call. -/
theorem ComesTo.scope_new {callee : Value} {args : List Value}
    (hd : (call callee args h s).ComesTo d) :
    h.scopes.size ≤ d.heap.scopes.size ∧ ∀ scope, d.task.scope? = some scope →
      h.scopes.size ≤ scope ∧ scope < d.heap.scopes.size := by
  induction hd with
  | refl =>
      refine ⟨Nat.le_refl _, ?_⟩
      rintro scope ⟨⟩
  | @tail d e _ hstep ih =>
      obtain ⟨hsize, hscope⟩ := ih
      rcases hstep with hturns | henters
      · have hgrows := hturns.changes.size_scopes_le
        refine ⟨hsize.trans hgrows, fun scope he => ?_⟩
        obtain ⟨hnew, hlt⟩ := hscope scope (hturns.scope?_eq he)
        exact ⟨hnew, Nat.lt_of_lt_of_le hlt hgrows⟩
      · have hgrows := henters.changes.size_scopes_le
        refine ⟨hsize.trans hgrows, fun scope he => ?_⟩
        cases henters with
        | body =>
            -- The scope is the one that is made for the body.
            obtain rfl := Option.some.inj he
            refine ⟨hsize, ?_⟩
            simp [Heap.enter_eq, Heap.addScope]
        | program => exact hscope scope he

/-- A name that is declared during a call is declared in a scope that is made during
the call. -/
theorem Executes.declare_new {callee : Value} {args : List Value} {kind : BindingKind}
    {scope : ScopeId} {x : String} {v : Value} {h₁ : Heap α}
    (hop : (call callee args h s).Executes (.declare kind scope x v) h₁) :
    h.scopes.size ≤ scope ∧ scope < h₁.scopes.size := by
  obtain ⟨d, hd, hdeclare⟩ := hop
  cases hdeclare with
  | declare he =>
      obtain ⟨hnew, hlt⟩ := hd.scope_new.2 scope rfl
      exact ⟨hnew, Nat.lt_of_lt_of_le hlt he.changes.size_scopes_le⟩

/-- The parameters of a function that is called during a call are bound in a scope
that is made during the call. -/
theorem Executes.enter_new {callee : Value} {args args' : List Value} {outer : ScopeId}
    {params : List String} {h₁ : Heap α}
    (hop : (call callee args h s).Executes (.enter outer params args') h₁) :
    h.scopes.size ≤ (h₁.enter outer params args').1 ∧ ∀ x ∈ params, ∃ v ∈ args',
      (h₁.enter outer params args').2.bound? (h₁.enter outer params args').1 .var x =
        some v := by
  obtain ⟨d, hd, henter⟩ := hop
  cases henter with
  | enter hf hlen =>
      refine ⟨hd.scope_new.1, fun x hx => ?_⟩
      obtain ⟨v, hv, hfind⟩ := find?_params hlen hx
      refine ⟨v, hv, ?_⟩
      simp only [Heap.enter_eq, Heap.addScope, Heap.bound?, Array.getElem?_push_size,
        Scope.bindings, hfind]

end Job

open Job in
/-- Calls are hygienic.

However a call ends, and also if it does not: a scope that was there when it began
has the same names for its variables and for its constants, and its constants are
what they were; a variable can have come to another value, by an assignment.  All
names declared and all parameters bound during the call are so in scopes that are
made during the call. -/
theorem calls_hygienic [Digest] [Host (StateM S)] (callee : Value) (args : List Value) (h : Heap α)
    (s : S) :
    (∀ n t x, t < h.scopes.size →
      (∀ kind, (((call callee args h s).ending n).state.bound? t kind x).isSome =
          (h.bound? t kind x).isSome) ∧
        ((call callee args h s).ending n).state.bound? t .val x = h.bound? t .val x ∧
        (((call callee args h s).ending n).state.bound? t .var x ≠ h.bound? t .var x →
          (call callee args h s).Assigns t x h ((call callee args h s).ending n).state)) ∧
    (∀ kind scope x v h₁, (call callee args h s).Executes (.declare kind scope x v) h₁ →
      h.scopes.size ≤ scope ∧ scope < h₁.scopes.size) ∧
    ∀ outer params args' h₁, (call callee args h s).Executes (.enter outer params args') h₁ →
      h.scopes.size ≤ (h₁.enter outer params args').1 ∧ ∀ x ∈ params, ∃ v ∈ args',
        (h₁.enter outer params args').2.bound? (h₁.enter outer params args').1 .var x =
          some v := by
  refine ⟨fun n t x ht => ?_, fun _ _ _ _ _ hop => hop.declare_new,
    fun _ _ _ _ hop => hop.enter_new⟩
  have hdeclare : ∀ kind v h₁, ¬(call callee args h s).Executes (.declare kind t x v) h₁ :=
    fun kind v h₁ hop => Nat.not_le_of_lt ht hop.declare_new.1
  obtain ⟨hval, hvar⟩ := ((call callee args h s).changes n).bound ht hdeclare
  refine ⟨fun kind => ?_, hval, fun hne => hvar.resolve_left hne⟩
  cases kind with
  | val => rw [hval]
  | var =>
      rcases hvar with hsame | ⟨w, v, hw, hv, -⟩
      · rw [hsame]
      · rw [hw, hv]
        rfl

/-- A function that declares a name, assigns to a name outside, and then fails. -/
def writing : Closure :=
  ⟨[⟨(), "a"⟩], .mk () [
    .declare .var () ⟨(), "b"⟩ (.ident ⟨(), "a"⟩),
    .expr () (.assign () ⟨(), "x"⟩ (.ident ⟨(), "b"⟩)),
    .expr () (.ident ⟨(), "nowhere"⟩)], 0⟩

/-- A heap with the function, and with a variable and a constant in its scope. -/
def beforeWriting : Heap :=
  ⟨#[.func writing],
    #[⟨Assoc.ofList [("x", .int 1)], Assoc.ofList [("k", .int 2)], none⟩]⟩

/-- The function is called with 5. -/
def writingFive : Job Unit Memory :=
  .call (.func 0) [.int 5] beforeWriting (Memory.start [] ∅)

/-- The call leaves nothing of its own in the scope, in which the variable has been
assigned to.  The name `b` is declared in a new scope, and so is the parameter. -/
theorem writingFive_hygienic :
    (∀ n kind, ((writingFive.ending n).state.bound? 0 kind "b").isSome = false) ∧
    (∀ n, (writingFive.ending n).state.bound? 0 .val "k" = some (.int 2)) ∧
    writingFive.Assigns 0 "x" beforeWriting (writingFive.ending 8).state ∧
    (∀ h₁, writingFive.Executes (.declare .var 1 "b" (.int 5)) h₁ → 1 < h₁.scopes.size) ∧
    ∃ v ∈ [Value.int 5],
      (beforeWriting.enter 0 ["a"] [.int 5]).2.bound? 1 .var "a" = some v := by
  obtain ⟨hscopes, hdeclare, henter⟩ :=
    calls_hygienic (.func 0) [.int 5] beforeWriting (Memory.start [] ∅)
  refine ⟨fun n kind => ?_, fun n => (hscopes n 0 "k" Nat.one_pos).2.1, ?_,
    fun h₁ hop => (hdeclare _ _ _ _ _ hop).2, ?_⟩
  · refine ((hscopes n 0 "b" Nat.one_pos).1 kind).trans ?_
    cases kind <;> rfl
  · obtain ⟨-, -, hassigns⟩ := hscopes 8 0 "x" Nat.one_pos
    refine hassigns ?_
    have hafter : (writingFive.ending 8).state.bound? 0 .var "x" = some (.int 5) := rfl
    have hbefore : beforeWriting.bound? 0 .var "x" = some (.int 1) := rfl
    change (writingFive.ending 8).state.bound? 0 .var "x" ≠ _
    rw [hafter, hbefore]
    decide
  · have hop : writingFive.Executes (.enter 0 ["a"] [.int 5]) beforeWriting :=
      ⟨writingFive, .refl, .enter (f := writing) rfl rfl⟩
    exact (henter _ _ _ _ hop).2 "a" List.mem_cons_self

end MonkeyLang
