import MonkeyLang.Host.Memory
import MonkeyLang.Proofs.Run.History
import MonkeyLang.Proofs.Run.Job
import MonkeyLang.Proofs.Store.Age

/-!
# Bindings last

A scope never forgets a name.  A variable stays a variable, a constant stays a
constant, and a constant keeps its value.  This is so in all heaps that come up
when things are done to a heap in any order: programs are run one after the
other, functions are called, and names are declared and assigned from outside in
any scope.

A scope keeps its variables and its constants in two maps, and only the checks
that are made before a name is bound keep it out of one of them.  What these
checks come to is `Heap.MayBind`.
-/

namespace MonkeyLang

variable {α σ S : Type}

/-! ## Policies for heaps -/

namespace Policy

/-- What is said of heaps only, and not of the values in them. -/
def ofHeaps (I : Heap α → Prop) (R : Heap α → Heap α → Prop) : Policy (Heap α) where
  Holds := I
  Leads := R
  Fit _ _ := True
  Within _ _ := True

section

variable {I : Heap α → Prop} {R : Heap α → Heap α → Prop}

theorem ofHeaps_admits {β : Type} {h : Heap α} {r : β × Heap α} {Q : Heap α → β → Prop}
    (hr : I r.2 ∧ R h r.2) (hQ : Q r.2 r.1) : (ofHeaps I R).Admits h r Q :=
  ⟨hr.1, hr.2, hQ⟩

/-- A policy for heaps is sound if every operation keeps to it. -/
theorem ofHeaps_sound (hrefl : ∀ h, R h h)
    (htrans : ∀ {h h' h''}, R h h' → R h' h'' → R h h'')
    (hop : ∀ {h} (op : Operation α), I h → I (op.apply h) ∧ R h (op.apply h)) :
    (ofHeaps I R).Sound where
  refl := hrefl
  trans := htrans
  fit_mono _ _ := trivial
  within_mono _ _ := trivial
  atom _ := trivial
  ret _ := trivial
  lookup _ _ _ := trivial
  element _ _ _ := trivial
  pair _ _ _ := trivial
  array hh _ := ofHeaps_admits (hop (.alloc _) hh) trivial
  hash hh _ := ofHeaps_admits (hop (.alloc _) hh) trivial
  func _ _ hh _ := ofHeaps_admits (hop (.alloc _) hh) trivial
  pop hh _ := ofHeaps_admits (hop (.pop _) hh) fun _ _ => trivial
  declare kind x hh _ _ := ofHeaps_admits (hop (.declare kind _ x _) hh) trivial
  assign x hh _ _ := ofHeaps_admits (hop (.assign _ x _) hh) trivial
  enter hh _ _ _ := ofHeaps_admits (hop (.enter _ _ _) hh) trivial

end

/-- Whatever a run is asked to do, it keeps to a sound policy for which all values
and scopes are fit. -/
theorem holds_task [Store α σ] [Digest] [Host (StateM S)] {P : Policy σ} (hP : P.Sound)
    (hfit : ∀ st v, P.Fit st v) (hwithin : ∀ st scope, P.Within st scope) {st : σ}
    (hst : P.Holds st) (t : Task α) (n : Nat) (s : S) :
    P.Holds ((t.run n).ending st s).state := by
  have hkept := keptUpTo (S := S) hP n
  cases t with
  | expr scope e => exact (hkept.expr e hst (hwithin st scope) s).holds
  | exprs scope es => exact (hkept.exprs es hst (hwithin st scope) s).holds
  | pairs scope ps sofar =>
      exact (hkept.pairs ps hst (hwithin st scope) (fun p _ => hfit st p.2) s).holds
  | stmt scope x => exact (hkept.stmt x hst (hwithin st scope) s).holds
  | stmts scope xs sofar => exact (hkept.stmts xs hst (hwithin st scope) (hfit st sofar) s).holds
  | loop scope c body sofar =>
      exact (hkept.loop c body hst (hwithin st scope) (hfit st sofar) s).holds
  | apply callee args => exact (hkept.apply hst (hfit st callee) (fun v _ => hfit st v) s).holds
  | program scope p => exact (runs_program hP hst (hwithin st scope) n p s).holds

end Policy

/-! ## Courses -/

/-- The histories of a heap to which anything is done that can be done to a heap, in
any order.  It begins without scopes.  There may be a new scope, inside of
another or not; any operation; and any run, with any fuel and any state of the
host. -/
inductive Course (S : Type) [Digest] [Host (StateM S)] : History α → Prop
  | start : Course S (History.start ⟨#[], #[]⟩)
  | scope {st} (hst : Course S st) (outer : Option ScopeId) :
      Course S (Store.put st (st.now.addScope (.empty outer)).2)
  | operation {st} (hst : Course S st) (op : Operation α) :
      Course S (Store.put st (op.apply st.now))
  | run {st} (hst : Course S st) (t : Task α) (n : Nat) (s : S) :
      Course S ((t.run n).ending st s).state

/-- All heaps in a course keep to a sound policy for heaps, if the heap without
anything in it and new scopes do. -/
theorem Course.holds [Digest] [Host (StateM S)] {I : Heap α → Prop} {R : Heap α → Heap α → Prop}
    (hsound : (Policy.ofHeaps I R).Sound) (hstart : I ⟨#[], #[]⟩)
    (hscope : ∀ {h : Heap α} (outer : Option ScopeId), I h →
      I (h.addScope (.empty outer)).2 ∧ R h (h.addScope (.empty outer)).2)
    (hop : ∀ {h : Heap α} (op : Operation α), I h → I (op.apply h) ∧ R h (op.apply h))
    {st : History α} (hst : Course S st) : (Policy.ofHeaps I R).remembered.Holds st := by
  have hadmits : ∀ {st : History α} {h' : Heap α}, (Policy.ofHeaps I R).remembered.Holds st →
      I h' ∧ R st.now h' → (Policy.ofHeaps I R).remembered.Holds (Store.put st h') := by
    intro st h' hst hkept
    have hadmits : (Policy.ofHeaps I R).Admits st.now ((), h') fun _ _ => True :=
      Policy.ofHeaps_admits hkept trivial
    exact (Policy.remembered_admits hsound hst hadmits).holds
  induction hst with
  | start => exact Policy.remembered_start hstart
  | scope _ outer ih => exact hadmits ih (hscope outer (ih.1 _ List.mem_cons_self))
  | operation _ op ih => exact hadmits ih (hop op (ih.1 _ List.mem_cons_self))
  | run _ t n s ih =>
      exact Policy.holds_task hsound.remembered (fun _ _ => trivial) (fun _ _ => trivial) ih t n s

/-! ## Two maps in a scope -/

namespace Heap

variable {h h' h'' : Heap α} {s : ScopeId} {x : String} {b : Binding}

/-- No name is both a variable and a constant of one scope. -/
def Separate (h : Heap α) : Prop :=
  ∀ s x v, h.bound? s .var x = some v → h.bound? s .val x = none

theorem separate_empty : Separate (⟨#[], #[]⟩ : Heap α) := by
  intro s x v hv
  cases hv

theorem Separate.bind (hh : h.Separate) (hb : h.MayBind s x b.kind) :
    (h.bind s x b).Separate := by
  intro t y v hv
  by_cases hsame : s = t ∧ x = y
  · obtain ⟨rfl, rfl⟩ := hsame
    obtain ⟨kind, w⟩ := b
    rcases hb with hnone | ⟨hkind, u, hu⟩
    · obtain ⟨hvar, hval⟩ := binding?_eq_none_iff.mp hnone
      -- Neither map had the name, and only one of them has got it.
      cases kind with
      | var => rw [bound?_bind_ne (by simp), hval]
      | val =>
          rw [bound?_bind_ne (by simp), hvar] at hv
          cases hv
    · subst hkind
      rw [bound?_bind_ne (by simp)]
      exact hh s x u (bound?_of_binding? hu)
  · rw [bound?_bind_elsewhere hsame] at hv ⊢
    exact hh t y v hv

/-- A new scope does not have to be empty, as long as it is without constants. -/
theorem Separate.addScope (hh : h.Separate) {scope : Scope} (hscope : scope.consts = .empty) :
    (h.addScope scope).2.Separate := by
  intro t y v hv
  by_cases ht : t = h.scopes.size
  · subst ht
    simp only [bound?, Heap.addScope, Array.getElem?_push_size, Scope.bindings, hscope]
    rfl
  · rw [bound?_addScope ht] at hv ⊢
    exact hh t y v hv

/-- Every operation keeps variables and constants apart. -/
theorem Separate.apply (hh : h.Separate) (op : Operation α) : (op.apply h).Separate := by
  rcases h.apply_cases op with hsame | ⟨s, x, b, hbind, -, hb⟩ | ⟨o, rfl⟩ | ⟨id, rfl⟩ |
    ⟨outer, params, args, rfl⟩
  · rwa [hsame]
  · rw [hbind]
    exact hh.bind hb
  · exact hh
  · simpa only [Separate, Operation.apply, bound?_pop] using hh
  · rw [apply_enter]
    exact hh.addScope rfl

theorem Separate.not_mem_keys (hh : h.Separate) {scope : Scope}
    (hscope : h.scopes[s]? = some scope) (hx : x ∈ scope.vars.keys) :
    x ∉ scope.consts.keys := by
  intro hx'
  obtain ⟨v, hv⟩ := Assoc.exists_find?_of_mem_keys hx
  obtain ⟨v', hv'⟩ := Assoc.exists_find?_of_mem_keys hx'
  have hvar : h.bound? s .var x = some v := by rw [bound?, hscope, ← hv]; rfl
  have hval : h.bound? s .val x = some v' := by rw [bound?, hscope, ← hv']; rfl
  cases hval.symm.trans (hh s x v hvar)

/-! ## Kinds and constants -/

/-- What is a variable of a scope once is a variable of it ever after; what is a constant is one
ever after, with the same value. -/
structure BindingsLast (h h' : Heap α) : Prop where
  vars : ∀ s x v, h.bound? s .var x = some v → ∃ w, h'.bound? s .var x = some w
  consts : ∀ s x v, h.bound? s .val x = some v → h'.bound? s .val x = some v

theorem BindingsLast.refl (h : Heap α) : h.BindingsLast h where
  vars _ _ v hv := ⟨v, hv⟩
  consts _ _ _ hv := hv

theorem BindingsLast.trans (hh' : h.BindingsLast h') (hh'' : h'.BindingsLast h'') :
    h.BindingsLast h'' where
  vars s x v hv := by
    obtain ⟨w, hw⟩ := hh'.vars s x v hv
    exact hh''.vars s x w hw
  consts s x v hv := hh''.consts s x v (hh'.consts s x v hv)

theorem bindingsLast_of_eq
    (heq : ∀ s kind x v, h.bound? s kind x = some v → h'.bound? s kind x = some v) :
    h.BindingsLast h' where
  vars s x v hv := ⟨v, heq s .var x v hv⟩
  consts s x v hv := heq s .val x v hv

theorem bindingsLast_addScope (h : Heap α) (scope : Scope) :
    h.BindingsLast (h.addScope scope).2 :=
  bindingsLast_of_eq fun s kind x v hv => by
    rwa [bound?_addScope (Nat.ne_of_lt (lt_of_bound? hv))]

theorem MayBind.bindingsLast (hb : h.MayBind s x b.kind) : h.BindingsLast (h.bind s x b) where
  vars t y v hv := by
    by_cases hsame : s = t ∧ x = y ∧ b.kind = .var
    · have hs : s < h.scopes.size := hsame.1 ▸ lt_of_bound? hv
      exact ⟨b.value, by rw [bound?_bind hs, if_pos hsame]⟩
    · exact ⟨v, by rw [bound?_bind_ne hsame, hv]⟩
  consts t y v hv := by
    rw [bound?_bind_ne, hv]
    -- What is a constant already may not be bound as one.
    rintro ⟨rfl, rfl, hval⟩
    have hnone := (binding?_eq_none_iff.mp (hb.binding?_eq_none hval)).2
    cases hv.symm.trans hnone

/-- Bindings last through every operation. -/
theorem bindingsLast_apply (h : Heap α) (op : Operation α) : h.BindingsLast (op.apply h) := by
  rcases h.apply_cases op with hsame | ⟨s, x, b, hbind, -, hb⟩ | ⟨o, rfl⟩ | ⟨id, rfl⟩ |
    ⟨outer, params, args, rfl⟩
  · rw [hsame]
    exact .refl h
  · rw [hbind]
    exact hb.bindingsLast
  · exact bindingsLast_of_eq fun _ _ _ _ hv => hv
  · exact bindingsLast_of_eq fun s kind x v hv => (bound?_pop id s kind x).trans hv
  · rw [apply_enter]
    exact h.bindingsLast_addScope _

end Heap

/-- Bindings keep their kind, and constants their value, for ever.

In every heap of a course, no scope has one name both among its variables and among
its constants; and all bindings in a heap last in the heaps after it. -/
theorem bindings_last [Digest] [Host (StateM S)] {st : History α} (hst : Course S st) :
    (∀ h ∈ st.heaps, ∀ (s : ScopeId) (scope : Scope), h.scopes[s]? = some scope →
      ∀ x ∈ scope.vars.keys, x ∉ scope.consts.keys) ∧
    st.heaps.Pairwise fun later earlier => earlier.BindingsLast later := by
  have hop : ∀ {h : Heap α} (op : Operation α), h.Separate →
      (op.apply h).Separate ∧ h.BindingsLast (op.apply h) :=
    fun op hh => ⟨hh.apply op, Heap.bindingsLast_apply _ op⟩
  have hscope : ∀ {h : Heap α} (outer : Option ScopeId), h.Separate →
      (h.addScope (.empty outer)).2.Separate ∧ h.BindingsLast (h.addScope (.empty outer)).2 :=
    fun outer hh => ⟨hh.addScope rfl, Heap.bindingsLast_addScope _ _⟩
  have hsound : (Policy.ofHeaps (α := α) Heap.Separate Heap.BindingsLast).Sound :=
    Policy.ofHeaps_sound Heap.BindingsLast.refl Heap.BindingsLast.trans hop
  obtain ⟨hseparate, hlast⟩ := Course.holds hsound Heap.separate_empty hscope hop hst
  exact ⟨fun h hh s scope hs x hx => (hseparate h hh).not_mem_keys hs hx, hlast⟩

/-- A heap with an array to which a constant is bound, and the heaps before it. -/
def constantArray : History Unit where
  now := ⟨#[.array []], #[⟨Assoc.empty, Assoc.ofList [("k", .array 0)], none⟩]⟩
  past := [⟨#[.array []], #[.empty none]⟩, ⟨#[], #[.empty none]⟩, ⟨#[], #[]⟩]

/-- A program that assigns something else to the constant. -/
def reassignment : Task Unit :=
  .program 0 ⟨[.expr () (.assign () ⟨(), "k"⟩ (.int () 2))]⟩

/-- The constant is still bound to the array. -/
theorem constantArray_lasts :
    Course Memory ((reassignment.run 8).ending constantArray (Memory.start [] ∅)).state ∧
      ((reassignment.run 8).ending constantArray (Memory.start [] ∅)).state.now.bound? 0 .val "k" =
        some (.array 0) := by
  have harray : Course Memory constantArray :=
    .operation (.operation (.scope .start none) (.alloc (.array [])))
      (.declare .val 0 "k" (.array 0))
  have hcourse : Course Memory
      ((reassignment.run 8).ending constantArray (Memory.start [] ∅)).state := harray.run _ _ _
  have hpast : constantArray.now ∈
      ((reassignment.run 8).ending constantArray (Memory.start [] ∅)).state.past :=
    List.mem_cons_self
  have hlast := List.rel_of_pairwise_cons (bindings_last hcourse).2 hpast
  exact ⟨hcourse, hlast.consts 0 "k" (.array 0) rfl⟩

end MonkeyLang
