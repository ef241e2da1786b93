import MonkeyLang.Proofs.Store.Operation

/-!
# The age of what is in a heap

Objects and scopes are made one after the other, and their places are in the
order of their making.  In an aged heap every reference goes to something that
is there, the scope around a scope is older than the scope, and what an array or
a hash holds is older than the array or the hash.  So these links form no cycle,
though functions and scopes may well refer to each other.

Every operation on what is there leaves an aged heap.
-/

namespace MonkeyLang

variable {α : Type}

/-- The kind of the values that stand for an object. -/
def Object.kind : Object α → ValueKind
  | .array _ => .array
  | .hash _ => .hash
  | .func _ => .function

namespace Heap

/-- The kind of the object at a place. -/
def kind? (h : Heap α) (id : ObjectId) : Option ValueKind :=
  (h.objects[id]?).map Object.kind

/-- The scope around a scope. -/
def outer? (h : Heap α) (s : ScopeId) : Option ScopeId :=
  (h.scopes[s]?).bind (·.outer)

/-- An object holds another, as an element, a key or a value. -/
def Contains (h : Heap α) (i j : ObjectId) : Prop :=
  ∃ v ∈ h.values (.object i), .object j ∈ v.nodes

end Heap

/-- What a value refers to is in the heap, and is of the kind of the value. -/
def Value.StandsIn (h : Heap α) : Value → Prop
  | func id => h.kind? id = some .function
  | array id => h.kind? id = some .array
  | hash id => h.kind? id = some .hash
  | ret v => v.StandsIn h
  | _ => True

namespace Operation

/-- The values that an operation puts into a heap. -/
def values : Operation α → List Value
  | alloc o => o.values
  | pop _ => []
  | declare _ _ _ v | assign _ _ v => [v]
  | enter _ _ args => args

/-- The scopes to which an operation makes something refer. -/
def scopes : Operation α → List ScopeId
  | alloc (.func f) => [f.scope]
  | alloc (.array _) | alloc (.hash _) | pop _ | declare _ _ _ _ | assign _ _ _ => []
  | enter outer _ _ => [outer]

/-- What an operation refers to is in the heap. -/
structure StandsIn (op : Operation α) (h : Heap α) : Prop where
  values : ∀ v ∈ op.values, v.StandsIn h
  scopes : ∀ s ∈ op.scopes, s < h.scopes.size

end Operation

namespace Heap

/-- Every reference goes to something that is there, and what is held or around is
older than what holds it or is inside. -/
structure Aged (h : Heap α) : Prop where
  values : ∀ p, ∀ v ∈ h.values p, v.StandsIn h
  captured : ∀ id f, h.closure? id = some f → f.scope < h.scopes.size
  outer : ∀ s o, h.outer? s = some o → o < s
  contents : ∀ i j, h.Contains i j → j < i

/-- What is in the first heap is in the second. -/
structure GrowsTo (h h' : Heap α) : Prop where
  kind : ∀ id k, h.kind? id = some k → h'.kind? id = some k
  scopes : h.scopes.size ≤ h'.scopes.size

variable {h h' h'' : Heap α} {p : Node}

theorem GrowsTo.refl (h : Heap α) : h.GrowsTo h :=
  ⟨fun _ _ hk => hk, Nat.le_refl _⟩

theorem GrowsTo.trans (hh' : h.GrowsTo h') (hh'' : h'.GrowsTo h'') : h.GrowsTo h'' :=
  ⟨fun id k hk => hh''.kind id k (hh'.kind id k hk), Nat.le_trans hh'.scopes hh''.scopes⟩

theorem lt_of_kind? {id : ObjectId} {k : ValueKind} (hk : h.kind? id = some k) :
    id < h.objects.size := by
  obtain ⟨o, ho, -⟩ := Option.map_eq_some_iff.mp hk
  exact (Array.getElem?_eq_some_iff.mp ho).1

/-- What is beyond a heap that has grown was beyond it before. -/
theorem GrowsTo.isNew (hh' : h.GrowsTo h') (hp : h'.IsNew p) : h.IsNew p := by
  cases p with
  | object id =>
      refine Nat.le_of_not_lt fun hlt => ?_
      have hkind : h.kind? id = some h.objects[id].kind := by
        rw [kind?, Array.getElem?_eq_getElem hlt, Option.map_some]
      exact Nat.not_le_of_lt (lt_of_kind? (hh'.kind id _ hkind)) hp
  | scope s => exact Nat.le_trans hh'.scopes hp

theorem growsTo_apply (h : Heap α) (op : Operation α) : h.GrowsTo (op.apply h) where
  kind id k hk := by
    rcases getElem?_apply_cases (lt_of_kind? hk) op with hsame | ⟨es, v, -, ho, ho'⟩
    · rwa [kind?, hsame]
    · rw [kind?, ho] at hk
      rwa [kind?, ho']
  scopes := size_scopes_le_apply h op

theorem growsTo_addScope (h : Heap α) (scope : Scope) : h.GrowsTo (h.addScope scope).2 where
  kind _ _ hk := hk
  scopes := Nat.le.intro (Array.size_push scope).symm

end Heap

theorem Value.StandsIn.mono {h h' : Heap α} (hh' : h.GrowsTo h') {v : Value}
    (hv : v.StandsIn h) : v.StandsIn h' := by
  induction v with
  | func id | array id | hash id => exact hh'.kind id _ hv
  | ret v ih => exact ih hv
  | _ => trivial

/-- An object to which a value refers is there. -/
theorem Value.StandsIn.lt_of_mem_nodes {h : Heap α} {v : Value} (hv : v.StandsIn h)
    {id : ObjectId} (hid : .object id ∈ v.nodes) : id < h.objects.size := by
  induction v with
  | func j | array j | hash j =>
      cases List.mem_singleton.mp hid
      exact Heap.lt_of_kind? hv
  | ret v ih => exact ih hv hid
  | _ => cases hid

/-- No value refers to a scope but by way of a function. -/
theorem Value.object_of_mem_nodes {v : Value} {q : Node} (hq : q ∈ v.nodes) :
    ∃ id, q = .object id := by
  induction v with
  | func id | array id | hash id => exact ⟨id, List.mem_singleton.mp hq⟩
  | ret v ih => exact ih hq
  | _ => cases hq

namespace Heap

variable {h : Heap α} {p : Node}

/-! ## What is where after an operation -/

theorem mem_values_scope {s : ScopeId} {v : Value} :
    v ∈ h.values (.scope s) ↔ ∃ scope, h.scopes[s]? = some scope ∧ v ∈ scope.values := by
  rw [values]
  cases h.scopes[s]? <;> simp

theorem mem_values_object {id : ObjectId} {v : Value} :
    v ∈ h.values (.object id) ↔ ∃ o, h.objects[id]? = some o ∧ v ∈ o.values := by
  rw [values]
  cases h.objects[id]? <;> simp

/-- Where a name is bound, values are held that were held before, and the one that
it is bound to. -/
theorem mem_values_bind {s : ScopeId} {x : String} {b : Binding} {v : Value}
    (hv : v ∈ (h.bind s x b).values p) :
    v ∈ h.values p ∨ v = b.value ∧ ∃ t, p = .scope t := by
  cases p with
  | object id => exact Or.inl hv
  | scope t =>
      obtain ⟨scope, hscope, hv⟩ := mem_values_scope.mp hv
      simp only [bind, Array.getElem?_modify] at hscope
      split at hscope
      · obtain ⟨scope', hscope', rfl⟩ := Option.map_eq_some_iff.mp hscope
        rcases Scope.mem_values_bind hv with hnew | hold
        · exact Or.inr ⟨hnew, t, rfl⟩
        · exact Or.inl (mem_values_scope.mpr ⟨scope', hscope', hold⟩)
      · exact Or.inl (mem_values_scope.mpr ⟨scope, hscope, hv⟩)

theorem mem_values_addScope {scope : Scope} {v : Value} (hv : v ∈ (h.addScope scope).2.values p) :
    v ∈ h.values p ∨ v ∈ scope.values ∧ ∃ t, p = .scope t := by
  cases p with
  | object id => exact Or.inl hv
  | scope t =>
      obtain ⟨scope', hscope', hv⟩ := mem_values_scope.mp hv
      simp only [addScope, Array.getElem?_push] at hscope'
      split at hscope'
      · cases hscope'
        exact Or.inr ⟨hv, t, rfl⟩
      · exact Or.inl (mem_values_scope.mpr ⟨scope', hscope', hv⟩)

theorem mem_values_alloc {o : Object α} {v : Value} (hv : v ∈ (h.alloc o).2.values p) :
    v ∈ h.values p ∨ v ∈ o.values ∧ p = .object h.objects.size := by
  cases p with
  | scope s => exact Or.inl hv
  | object id =>
      obtain ⟨o', ho', hv⟩ := mem_values_object.mp hv
      simp only [alloc, Array.getElem?_push] at ho'
      split at ho'
      · next hid =>
          cases ho'
          exact Or.inr ⟨hv, by rw [hid]⟩
      · exact Or.inl (mem_values_object.mpr ⟨o', ho', hv⟩)

theorem size_objects_pop (h : Heap α) (id : ObjectId) :
    (h.pop id).2.objects.size = h.objects.size := by
  rcases h.pop_cases id with ⟨-, hsame⟩ | ⟨es, v, -, hpop⟩
  · rw [hsame]
  · rw [hpop]
    exact Array.size_modify

theorem mem_values_pop {id : ObjectId} {v : Value} (hv : v ∈ (h.pop id).2.values p) :
    v ∈ h.values p := by
  cases p with
  | scope s =>
      rw [values, scopes_pop] at hv
      exact hv
  | object j =>
      obtain ⟨o, ho, hv⟩ := mem_values_object.mp hv
      have hj : j < h.objects.size := by
        rw [← size_objects_pop h id]
        exact (Array.getElem?_eq_some_iff.mp ho).1
      rcases getElem?_apply_cases hj (.pop id) with hsame | ⟨es, w, -, hbefore, hafter⟩
      · exact mem_values_object.mpr ⟨o, hsame ▸ ho, hv⟩
      · cases ho.symm.trans hafter
        exact mem_values_object.mpr ⟨_, hbefore, List.mem_append_left _ hv⟩

/-- An operation that makes nothing and takes nothing away does nothing, or it binds a
name to a value that it works with. -/
theorem apply_cases (h : Heap α) (op : Operation α) :
    op.apply h = h ∨
      (∃ s x b, op.apply h = h.bind s x b ∧ b.value ∈ op.values ∧ h.MayBind s x b.kind) ∨
      (∃ o, op = .alloc o) ∨ (∃ id, op = .pop id) ∨
      ∃ outer params args, op = .enter outer params args := by
  cases op with
  | alloc o => exact .inr (.inr (.inl ⟨o, rfl⟩))
  | pop id => exact .inr (.inr (.inr (.inl ⟨id, rfl⟩)))
  | enter outer params args => exact .inr (.inr (.inr (.inr ⟨outer, params, args, rfl⟩)))
  | declare kind s x v =>
      rw [Operation.apply]
      rcases h.declare_cases kind s x v with ⟨e, heq⟩ | ⟨heq, hb⟩ <;> rw [heq]
      · exact .inl rfl
      · exact .inr (.inl ⟨s, x, _, rfl, List.mem_singleton_self v, hb⟩)
  | assign s x v =>
      rw [Operation.apply]
      rcases h.assign_cases s x v with ⟨⟨e, heq⟩, -⟩ | ⟨t, w, hholder, heq⟩ <;> rw [heq]
      · exact .inl rfl
      · have hb := mayBind_variable (mem_of_holderIn hholder).2
        exact .inr (.inl ⟨t, x, _, rfl, List.mem_singleton_self v, hb⟩)

/-- What is held somewhere after an operation was held there before, or has been
put into a scope or a new object. -/
theorem mem_values_apply {op : Operation α} {v : Value} (hv : v ∈ (op.apply h).values p) :
    v ∈ h.values p ∨
      v ∈ op.values ∧ ((∃ s, p = .scope s) ∨ p = .object h.objects.size) := by
  rcases h.apply_cases op with hsame | ⟨s, x, b, hbind, hb, -⟩ | ⟨o, rfl⟩ | ⟨id, rfl⟩ |
    ⟨outer, params, args, rfl⟩
  · exact .inl (hsame ▸ hv)
  · rw [hbind] at hv
    rcases mem_values_bind hv with hold | ⟨rfl, hplace⟩
    · exact .inl hold
    · exact .inr ⟨hb, .inl hplace⟩
  · exact (mem_values_alloc hv).imp_right (And.imp_right .inr)
  · exact .inl (mem_values_pop hv)
  · rw [apply_enter] at hv
    refine (mem_values_addScope hv).imp_right (And.imp (fun hmem => ?_) .inl)
    rcases List.mem_append.mp hmem with hvariable | hconstant
    · exact mem_args_of_mem_values hvariable
    · cases hconstant

theorem closure?_eq_some {id : ObjectId} {f : Closure α} :
    h.closure? id = some f ↔ h.objects[id]? = some (.func f) := by
  rw [closure?]
  split
  · next f' ho => simp [ho]
  · next hne => simpa using hne f

/-- The function at a place after an operation was there before, or it is a new
one. -/
theorem closure?_apply {op : Operation α} {id : ObjectId} {f : Closure α}
    (hf : (op.apply h).closure? id = some f) :
    h.closure? id = some f ∨ op = .alloc (.func f) := by
  rw [closure?_eq_some] at hf ⊢
  by_cases hid : id < h.objects.size
  · rcases getElem?_apply_cases hid op with hsame | ⟨es, v, -, -, hafter⟩
    · exact Or.inl (hsame ▸ hf)
    · cases hf.symm.trans hafter
  · have hlt := (Array.getElem?_eq_some_iff.mp hf).1
    rcases h.apply_cases op with hsame | ⟨s, x, b, hbind, -⟩ | ⟨o, rfl⟩ | ⟨j, rfl⟩ |
      ⟨outer, params, args, rfl⟩
    · exact (hid (hsame ▸ hlt)).elim
    · rw [hbind] at hlt
      exact (hid hlt).elim
    · simp only [Operation.apply, alloc, Array.getElem?_push] at hf
      split at hf
      · cases hf
        exact .inr rfl
      · exact .inl hf
    · rw [Operation.apply, size_objects_pop] at hlt
      exact (hid hlt).elim
    · rw [apply_enter] at hlt
      exact (hid hlt).elim

theorem outer?_bind (h : Heap α) (s : ScopeId) (x : String) (b : Binding) (t : ScopeId) :
    (h.bind s x b).outer? t = h.outer? t := by
  simp only [outer?, bind, Array.getElem?_modify]
  split
  · cases h.scopes[t]? <;> simp
  · rfl

theorem outer?_addScope {scope : Scope} {s o : ScopeId}
    (ho : (h.addScope scope).2.outer? s = some o) :
    h.outer? s = some o ∨ s = h.scopes.size ∧ scope.outer = some o := by
  simp only [outer?, addScope, Array.getElem?_push] at ho
  split at ho
  · next hs => exact Or.inr ⟨hs, ho⟩
  · exact Or.inl ho

/-- The scope around a scope after an operation was around it before, or the scope
inside is a new one. -/
theorem outer?_apply {op : Operation α} {s o : ScopeId} (ho : (op.apply h).outer? s = some o) :
    h.outer? s = some o ∨ s = h.scopes.size ∧ o ∈ op.scopes := by
  rcases h.apply_cases op with hsame | ⟨t, x, b, hbind, -⟩ | ⟨ob, rfl⟩ | ⟨id, rfl⟩ |
    ⟨outer, params, args, rfl⟩
  · exact .inl (hsame ▸ ho)
  · rw [hbind, outer?_bind] at ho
    exact .inl ho
  · exact .inl ho
  · rw [Operation.apply, outer?, scopes_pop] at ho
    exact .inl ho
  · rw [apply_enter] at ho
    refine (outer?_addScope ho).imp_right (And.imp_right fun houter => ?_)
    exact List.mem_singleton.mpr (Option.some.inj houter).symm

/-! ## Aged heaps -/

theorem aged_empty : Aged (⟨#[], #[]⟩ : Heap α) where
  values p v hv := by cases p <;> cases hv
  captured _ _ hf := by cases hf
  outer _ _ ho := by cases ho
  contents _ _ := by
    rintro ⟨v, hv, -⟩
    cases hv

/-- An operation on what is in an aged heap leaves an aged heap. -/
theorem Aged.apply (hh : h.Aged) {op : Operation α} (hop : op.StandsIn h) :
    (op.apply h).Aged where
  values p v hv := by
    rcases mem_values_apply hv with hold | ⟨hnew, -⟩
    · exact (hh.values p v hold).mono (growsTo_apply h op)
    · exact (hop.values v hnew).mono (growsTo_apply h op)
  captured id f hf := by
    refine Nat.lt_of_lt_of_le ?_ (size_scopes_le_apply h op)
    rcases closure?_apply hf with hold | rfl
    · exact hh.captured id f hold
    · exact hop.scopes f.scope List.mem_cons_self
  outer s o ho := by
    rcases outer?_apply ho with hold | ⟨rfl, hnew⟩
    · exact hh.outer s o hold
    · exact hop.scopes o hnew
  contents i j := by
    rintro ⟨v, hv, hj⟩
    rcases mem_values_apply hv with hold | ⟨hnew, ⟨s, hs⟩ | hi⟩
    · exact hh.contents i j ⟨v, hold, hj⟩
    · cases hs
    · cases hi
      exact (hop.values v hnew).lt_of_mem_nodes hj

/-- A new scope inside of one that is there leaves an aged heap. -/
theorem Aged.addScope (hh : h.Aged) {outer : Option ScopeId}
    (houter : ∀ o, outer = some o → o < h.scopes.size) :
    (h.addScope (.empty outer)).2.Aged where
  values p v hv := by
    rcases mem_values_addScope hv with hold | ⟨hnew, -⟩
    · exact (hh.values p v hold).mono (growsTo_addScope h _)
    · cases hnew
  captured id f hf := Nat.lt_of_lt_of_le (hh.captured id f hf) (growsTo_addScope h _).scopes
  outer s o ho := by
    rcases outer?_addScope ho with hold | ⟨rfl, hnew⟩
    · exact hh.outer s o hold
    · exact houter o hnew
  contents := hh.contents

/-- Links that go from later to earlier places form no cycle. -/
theorem not_transGen_self {r : Nat → Nat → Prop} (hr : ∀ i j, r i j → j < i) (i : Nat) :
    ¬Relation.TransGen r i i := by
  have hlt : ∀ {j}, Relation.TransGen r i j → j < i := by
    intro j hj
    induction hj with
    | single hj => exact hr _ _ hj
    | tail _ hj ih => exact Nat.lt_trans (hr _ _ hj) ih
  exact fun hcycle => Nat.lt_irrefl i (hlt hcycle)

end Heap

end MonkeyLang
