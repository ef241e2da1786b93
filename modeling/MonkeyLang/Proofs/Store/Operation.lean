import MonkeyLang.Proofs.Store.Reach

/-!
# Operations on heaps

There are five ways in which a run changes a heap.  What each of them does to a
binding and to an object that is there already is said here once: a binding is
changed by declarations and assignments only, and an object by `pop` only.
-/

namespace MonkeyLang

variable {α : Type}

/-- The operations by which a run changes a heap. -/
inductive Operation (α : Type) where
  | alloc (o : Object α)
  | pop (id : ObjectId)
  | declare (kind : BindingKind) (scope : ScopeId) (x : String) (v : Value)
  | assign (scope : ScopeId) (x : String) (v : Value)
  | enter (outer : ScopeId) (params : List String) (args : List Value)

/-- The heap after an operation. -/
def Operation.apply (h : Heap α) : Operation α → Heap α
  | .alloc o => (h.alloc o).2
  | .pop id => (h.pop id).2
  | .declare kind scope x v => (h.declare kind scope x v).2
  | .assign scope x v => (h.assign scope x v).2
  | .enter outer params args => (h.enter outer params args).2

namespace Heap

variable {h : Heap α}

/-! ## Bindings -/

theorem binding?_congr {h' : Heap α} {s : ScopeId} (hscope : h'.scopes[s]? = h.scopes[s]?)
    (x : String) : h'.binding? s x = h.binding? s x := by
  simp only [binding?, bound?, hscope]

theorem binding?_eq_none_iff {s : ScopeId} {x : String} :
    h.binding? s x = none ↔ h.bound? s .var x = none ∧ h.bound? s .val x = none := by
  rw [binding?]
  cases h.bound? s .var x <;> simp

theorem binding?_of_variable {s : ScopeId} {x : String} {v : Value}
    (hv : h.bound? s .var x = some v) : h.binding? s x = some ⟨.var, v⟩ := by
  rw [binding?, hv]

theorem lt_of_bound? {s : ScopeId} {kind : BindingKind} {x : String} {v : Value}
    (hv : h.bound? s kind x = some v) : s < h.scopes.size := by
  obtain ⟨scope, hscope, -⟩ := exists_scope_of_bound? hv
  exact (Array.getElem?_eq_some_iff.mp hscope).1

/-- A name may be bound in some way in a scope that does not bind it, and as a variable in one
in which it is a variable. -/
def MayBind (h : Heap α) (s : ScopeId) (x : String) (kind : BindingKind) : Prop :=
  h.binding? s x = none ∨ kind = .var ∧ ∃ w, h.binding? s x = some ⟨.var, w⟩

theorem mayBind_variable {s : ScopeId} {x : String} {w : Value}
    (hw : h.binding? s x = some ⟨.var, w⟩) : h.MayBind s x .var :=
  Or.inr ⟨rfl, w, hw⟩

/-- What may be bound as a constant is bound in no way. -/
theorem MayBind.binding?_eq_none {s : ScopeId} {x : String} {kind : BindingKind}
    (hb : h.MayBind s x kind) (hkind : kind = .val) : h.binding? s x = none := by
  rcases hb with hnone | ⟨hvar, -⟩
  · exact hnone
  · cases hvar.symm.trans hkind

/-- Where something is bound elsewhere, or in the other map, nothing is changed. -/
theorem bound?_bind_ne {s t : ScopeId} {kind : BindingKind} {x y : String} {b : Binding}
    (hne : ¬(s = t ∧ x = y ∧ b.kind = kind)) :
    (h.bind s x b).bound? t kind y = h.bound? t kind y := by
  by_cases hs : s < h.scopes.size
  · rw [bound?_bind hs, if_neg hne]
  · have hnone : h.scopes[s]? = none := Array.getElem?_eq_none (Nat.le_of_not_lt hs)
    simp only [bound?, bind, Array.getElem?_modify]
    by_cases hst : s = t
    · subst hst
      simp only [if_true, hnone, Option.map_none]
    · simp only [if_neg hst]

/-- Other names, and the name in other scopes, are left as they are in both maps. -/
theorem bound?_bind_elsewhere {s t : ScopeId} {x y : String} (hne : ¬(s = t ∧ x = y))
    (b : Binding) (kind : BindingKind) :
    (h.bind s x b).bound? t kind y = h.bound? t kind y :=
  bound?_bind_ne fun hsame => hne ⟨hsame.1, hsame.2.1⟩

theorem binding?_bind_ne {s t : ScopeId} {x y : String} (hne : ¬(s = t ∧ x = y)) (b : Binding) :
    (h.bind s x b).binding? t y = h.binding? t y := by
  simp only [binding?, bound?_bind_elsewhere hne]

/-- A name is seen to be bound as it has been bound, if it may be bound so. -/
theorem binding?_bind {s : ScopeId} (hs : s < h.scopes.size) {x : String} {b : Binding}
    (hb : h.MayBind s x b.kind) : (h.bind s x b).binding? s x = some b := by
  obtain ⟨kind, v⟩ := b
  rw [binding?, bound?_bind hs, bound?_bind hs]
  cases kind with
  | var => simp
  | val => simp [(binding?_eq_none_iff.mp (hb.binding?_eq_none rfl)).1]

/-- A declaration is refused and changes nothing, or it binds the name anew or as the
variable that it was. -/
theorem declare_cases (h : Heap α) (kind : BindingKind) (s : ScopeId) (x : String) (v : Value) :
    (∃ e, h.declare kind s x v = (.error e, h)) ∨
      h.declare kind s x v = (.ok (), h.bind s x ⟨kind, v⟩) ∧ h.MayBind s x kind := by
  cases kind with
  | var =>
      cases hval : h.bound? s .val x with
      | some w => exact Or.inl ⟨.alreadyConstant x, by simp [declare, hval]⟩
      | none =>
          refine Or.inr ⟨by simp [declare, hval], ?_⟩
          cases hvar : h.bound? s .var x with
          | none => exact Or.inl (binding?_eq_none_iff.mpr ⟨hvar, hval⟩)
          | some w => exact mayBind_variable (binding?_of_variable hvar)
  | val =>
      cases hvar : h.bound? s .var x with
      | some w => exact Or.inl ⟨.alreadyVariable x, by simp [declare, hvar]⟩
      | none =>
          cases hval : h.bound? s .val x with
          | some w => exact Or.inl ⟨.constant x, by simp [declare, hvar, hval]⟩
          | none =>
              refine Or.inr ⟨by simp [declare, hvar, hval], Or.inl ?_⟩
              exact binding?_eq_none_iff.mpr ⟨hvar, hval⟩

/-- An assignment is refused and changes nothing, as the nearest binding is no variable, or it
binds the name where its nearest binding is one. -/
theorem assign_cases (h : Heap α) (s : ScopeId) (x : String) (v : Value) :
    (∃ e, h.assign s x v = (.error e, h)) ∧ (∀ t w, h.holder? s x ≠ some (t, ⟨.var, w⟩)) ∨
      ∃ t w, h.holder? s x = some (t, ⟨.var, w⟩) ∧
        h.assign s x v = (.ok (), h.bind t x ⟨.var, v⟩) := by
  unfold assign
  split
  · next hnone => exact Or.inl ⟨⟨_, rfl⟩, fun t w hvar => by cases hnone.symm.trans hvar⟩
  · next hval => exact Or.inl ⟨⟨_, rfl⟩, fun t w hvar => by cases hval.symm.trans hvar⟩
  · next t w hvar => exact Or.inr ⟨t, w, hvar, rfl⟩

@[simp]
theorem objects_declare (kind : BindingKind) (s : ScopeId) (x : String) (v : Value) :
    (h.declare kind s x v).2.objects = h.objects := by
  rcases h.declare_cases kind s x v with ⟨e, heq⟩ | ⟨heq, -⟩ <;> rw [heq]
  rfl

@[simp]
theorem size_scopes_declare (kind : BindingKind) (s : ScopeId) (x : String) (v : Value) :
    (h.declare kind s x v).2.scopes.size = h.scopes.size := by
  rcases h.declare_cases kind s x v with ⟨e, heq⟩ | ⟨heq, -⟩ <;> rw [heq]
  exact Array.size_modify

@[simp]
theorem objects_assign (s : ScopeId) (x : String) (v : Value) :
    (h.assign s x v).2.objects = h.objects := by
  unfold assign
  split <;> rfl

@[simp]
theorem size_scopes_assign (s : ScopeId) (x : String) (v : Value) :
    (h.assign s x v).2.scopes.size = h.scopes.size := by
  unfold assign
  split
  · rfl
  · rfl
  · exact Array.size_modify

@[simp]
theorem scopes_pop (id : ObjectId) : (h.pop id).2.scopes = h.scopes := by
  rw [pop]
  split <;> rfl

theorem apply_enter (outer : ScopeId) (params : List String) (args : List Value) :
    (Operation.enter outer params args).apply h =
      (h.addScope ⟨Assoc.ofList (params.zip args), Assoc.empty, some outer⟩).2 := by
  rw [Operation.apply, enter_eq]

/-- No operation takes a scope away. -/
theorem size_scopes_le_apply (h : Heap α) (op : Operation α) :
    h.scopes.size ≤ (op.apply h).scopes.size := by
  cases op <;> simp [Operation.apply, alloc, enter_eq, addScope]

/-- A new scope leaves the bindings of the scopes that were there. -/
theorem bound?_addScope {s : ScopeId} (hs : s ≠ h.scopes.size) (scope : Scope)
    (kind : BindingKind) (x : String) :
    (h.addScope scope).2.bound? s kind x = h.bound? s kind x := by
  simp only [bound?, addScope, Array.getElem?_push, if_neg hs]

theorem bound?_pop (id : ObjectId) (s : ScopeId) (kind : BindingKind) (x : String) :
    (h.pop id).2.bound? s kind x = h.bound? s kind x := by
  simp only [bound?, scopes_pop]

/-- What is done to a name in a scope that is there: nothing; or it is declared there; or it is
assigned to, and then it comes to another value as the variable that it is. -/
theorem bound?_apply_cases {s : ScopeId} (hs : s < h.scopes.size) (op : Operation α)
    (x : String) :
    (∀ kind, (op.apply h).bound? s kind x = h.bound? s kind x) ∨
      (∃ kind v, op = .declare kind s x v) ∨
      ∃ t v w, op = .assign t x v ∧ h.holder? t x = some (s, ⟨.var, w⟩) ∧
        (op.apply h).bound? s .var x = some v ∧
        (op.apply h).bound? s .val x = h.bound? s .val x := by
  cases op with
  | alloc o => exact Or.inl fun _ => rfl
  | pop id => exact Or.inl fun kind => bound?_pop id s kind x
  | enter outer params args =>
      rw [apply_enter]
      exact Or.inl fun kind => bound?_addScope (Nat.ne_of_lt hs) _ kind x
  | declare kind t y v =>
      by_cases hty : t = s ∧ y = x
      · obtain ⟨rfl, rfl⟩ := hty
        exact Or.inr (Or.inl ⟨kind, v, rfl⟩)
      · refine Or.inl fun kind' => ?_
        rw [Operation.apply]
        rcases h.declare_cases kind t y v with ⟨e, heq⟩ | ⟨heq, -⟩ <;> rw [heq]
        exact bound?_bind_elsewhere hty _ kind'
  | assign t y v =>
      rw [Operation.apply]
      rcases h.assign_cases t y v with ⟨⟨e, heq⟩, -⟩ | ⟨r, w, hholder, heq⟩ <;> rw [heq]
      · exact Or.inl fun _ => rfl
      · by_cases hry : r = s ∧ y = x
        · obtain ⟨rfl, rfl⟩ := hry
          refine Or.inr (Or.inr ⟨t, v, w, rfl, hholder, ?_, bound?_bind_ne (by simp)⟩)
          rw [bound?_bind hs, if_pos ⟨rfl, rfl, rfl⟩]
        · exact Or.inl (bound?_bind_elsewhere hry _)

/-! ## Objects -/

theorem getElem?_of_elements {id : ObjectId} {es : List Value} (hes : h.elements id = es)
    (hne : es ≠ []) : h.objects[id]? = some (.array es) := by
  subst hes
  rw [elements] at hne ⊢
  split at hne
  · next es ho => rw [ho]
  · exact (hne rfl).elim

theorem getElem?_modify_withoutLast {id : ObjectId} {es : List Value} {v : Value}
    (ho : h.objects[id]? = some (.array (es ++ [v]))) :
    (h.objects.modify id withoutLast)[id]? = some (.array es) := by
  simp only [Array.getElem?_modify, if_true, ho, Option.map_some, withoutLast,
    List.dropLast_concat]

/-- There is nothing to be taken off an array, or its last element is taken off and
nothing else is changed. -/
theorem pop_cases (h : Heap α) (id : ObjectId) :
    h.elements id = [] ∧ h.pop id = (none, h) ∨
      ∃ es v, h.objects[id]? = some (.array (es ++ [v])) ∧
        h.pop id = (some v, { h with objects := h.objects.modify id withoutLast }) := by
  rw [pop]
  cases hlast : (h.elements id).getLast? with
  | none => exact Or.inl ⟨List.getLast?_eq_none_iff.mp hlast, rfl⟩
  | some v =>
      obtain ⟨es, hes⟩ := List.getLast?_eq_some_iff.mp hlast
      exact Or.inr ⟨es, v, getElem?_of_elements hes (by simp), rfl⟩

/-- What is done to an object that is there: nothing, or an array is made shorter by
its last element. -/
theorem getElem?_apply_cases {id : ObjectId} (hid : id < h.objects.size) (op : Operation α) :
    (op.apply h).objects[id]? = h.objects[id]? ∨
      ∃ es v, op = .pop id ∧ h.objects[id]? = some (.array (es ++ [v])) ∧
        (op.apply h).objects[id]? = some (.array es) := by
  cases op with
  | alloc o =>
      left
      simp only [Operation.apply, alloc, Array.getElem?_push, if_neg (Nat.ne_of_lt hid)]
  | enter outer params args => exact Or.inl (by rw [apply_enter, addScope])
  | declare kind s x v => exact Or.inl (by rw [Operation.apply, objects_declare])
  | assign s x v => exact Or.inl (by rw [Operation.apply, objects_assign])
  | pop j =>
      rw [Operation.apply]
      rcases h.pop_cases j with ⟨-, hsame⟩ | ⟨es, v, ho, hpop⟩
      · exact Or.inl (by rw [hsame])
      · rw [hpop]
        by_cases hj : j = id
        · subst hj
          exact Or.inr ⟨es, v, rfl, ho, getElem?_modify_withoutLast ho⟩
        · exact Or.inl (by simp only [Array.getElem?_modify, if_neg hj])

end Heap

end MonkeyLang
