import MonkeyLang.Proofs.Run.Keeping
import MonkeyLang.Proofs.Store.Operation

/-!
# Regions

A region of a heap is a set of nodes that no link leads out of, and that
everything made later belongs to.  A run that begins in a region stays in it: it
holds values of the region only, and changes nothing outside.  What is said of
the values in the region besides, such as that none of them is an error, stays
true of them.
-/

namespace MonkeyLang

variable {α : Type}

/-- A value satisfies `V`, and all its nodes satisfy `R`. -/
structure Value.Fits (V : Value → Prop) (R : Node → Prop) (v : Value) : Prop where
  value : V v
  nodes : ∀ q ∈ v.nodes, R q

/-- All values that an object holds satisfy `V`, and all nodes that it leads to
satisfy `R`. -/
structure Object.Fits (V : Value → Prop) (R : Node → Prop) (o : Object α) : Prop where
  values : ∀ v ∈ o.values, V v
  nodes : ∀ q ∈ o.nodes, R q

/-- All values that a scope holds satisfy `V`, and all nodes that it leads to
satisfy `R`. -/
structure Scope.Fits (V : Value → Prop) (R : Node → Prop) (scope : Scope) : Prop where
  values : ∀ v ∈ scope.values, V v
  nodes : ∀ q ∈ scope.nodes, R q

section

variable {V : Value → Prop} {R : Node → Prop}

theorem forall_mem_elim {β γ : Type} {o : Option β} {f : β → List γ} {C : γ → Prop}
    (hsome : ∀ b, o = some b → ∀ c ∈ f b, C c) : ∀ c ∈ o.elim [] f, C c := by
  cases o with
  | none => exact fun c hc => (List.not_mem_nil hc).elim
  | some b => exact hsome b rfl

theorem Object.Fits.of_values {o : Object α} (hvalues : ∀ v ∈ o.values, v.Fits V R)
    (hcaptured : ∀ q ∈ o.captured, R q) : o.Fits V R := by
  constructor
  · exact fun v hv => (hvalues v hv).value
  · intro q hq
    rcases List.mem_append.mp hq with hq | hq
    · obtain ⟨v, hv, hq⟩ := List.mem_flatMap.mp hq
      exact (hvalues v hv).nodes q hq
    · exact hcaptured q hq

theorem Object.Fits.of_mem {o : Object α} (ho : o.Fits V R) {v : Value} (hv : v ∈ o.values) :
    v.Fits V R := by
  constructor
  · exact ho.values v hv
  · intro q hq
    exact ho.nodes q (List.mem_append_left _ (List.mem_flatMap.mpr ⟨v, hv, hq⟩))

theorem Scope.Fits.of_values {scope : Scope} (hvalues : ∀ v ∈ scope.values, v.Fits V R)
    (houter : ∀ o, scope.outer = some o → R (.scope o)) : scope.Fits V R := by
  constructor
  · exact fun v hv => (hvalues v hv).value
  · intro q hq
    rcases List.mem_append.mp hq with hq | hq
    · obtain ⟨v, hv, hq⟩ := List.mem_flatMap.mp hq
      exact (hvalues v hv).nodes q hq
    · obtain ⟨o, ho, rfl⟩ := List.mem_map.mp hq
      exact houter o (Option.mem_toList.mp ho)

theorem Scope.Fits.of_mem {scope : Scope} (hscope : scope.Fits V R) {v : Value}
    (hv : v ∈ scope.values) : v.Fits V R := by
  constructor
  · exact hscope.values v hv
  · intro q hq
    exact hscope.nodes q (List.mem_append_left _ (List.mem_flatMap.mpr ⟨v, hv, hq⟩))

theorem Scope.Fits.of_outer {scope : Scope} (hscope : scope.Fits V R) {o : ScopeId}
    (ho : scope.outer = some o) : R (.scope o) := by
  apply hscope.nodes
  apply List.mem_append_right
  exact List.mem_map_of_mem (Option.mem_toList.mpr ho)

end

namespace Heap

/-- The nodes that satisfy `R` are a region, in which all values satisfy
`V`. -/
structure Encloses (V : Value → Prop) (R : Node → Prop) (h : Heap α) : Prop where
  new : ∀ p, h.IsNew p → R p
  values : ∀ p, R p → ∀ v ∈ h.values p, V v
  links : ∀ p, R p → ∀ q ∈ h.links p, R q

/-- Outside of `R`, two heaps are the same. -/
structure SameBut (R : Node → Prop) (h h' : Heap α) : Prop where
  objects : ∀ id, ¬R (.object id) → h'.objects[id]? = h.objects[id]?
  scopes : ∀ s, ¬R (.scope s) → h'.scopes[s]? = h.scopes[s]?

theorem SameBut.refl (R : Node → Prop) (h : Heap α) : h.SameBut R h :=
  ⟨fun _ _ => rfl, fun _ _ => rfl⟩

theorem SameBut.trans {R : Node → Prop} {h h' h'' : Heap α} (hh' : h.SameBut R h')
    (hh'' : h'.SameBut R h'') : h.SameBut R h'' :=
  ⟨fun id hid => (hh''.objects id hid).trans (hh'.objects id hid),
    fun s hs => (hh''.scopes s hs).trans (hh'.scopes s hs)⟩

section

variable {V : Value → Prop} {R : Node → Prop} {h : Heap α}

theorem Encloses.object_fits (hh : h.Encloses V R) {id : ObjectId} {o : Object α}
    (hR : R (.object id)) (ho : h.objects[id]? = some o) : o.Fits V R := by
  have hvalues := hh.values _ hR
  have hlinks := hh.links _ hR
  rw [Heap.values, ho] at hvalues
  rw [Heap.links, ho] at hlinks
  exact ⟨hvalues, hlinks⟩

theorem Encloses.scope_fits (hh : h.Encloses V R) {s : ScopeId} {scope : Scope}
    (hR : R (.scope s)) (hs : h.scopes[s]? = some scope) : scope.Fits V R := by
  have hvalues := hh.values _ hR
  have hlinks := hh.links _ hR
  rw [Heap.values, hs] at hvalues
  rw [Heap.links, hs] at hlinks
  exact ⟨hvalues, hlinks⟩

/-- A heap that has grown still has the region, if all objects and scopes in the
region fit. -/
theorem Encloses.of_fits (hh : h.Encloses V R) {h' : Heap α}
    (hobjects : h.objects.size ≤ h'.objects.size) (hscopes : h.scopes.size ≤ h'.scopes.size)
    (hobject : ∀ (id : ObjectId) o, R (.object id) → h'.objects[id]? = some o → o.Fits V R)
    (hscope : ∀ (s : ScopeId) scope, R (.scope s) → h'.scopes[s]? = some scope →
      scope.Fits V R) : h'.Encloses V R := by
  constructor
  · intro p hp
    apply hh.new
    cases p with
    | object id => exact Nat.le_trans hobjects hp
    | scope s => exact Nat.le_trans hscopes hp
  · intro p hR
    cases p with
    | object id => exact forall_mem_elim fun o ho => (hobject id o hR ho).values
    | scope s => exact forall_mem_elim fun scope hs => (hscope s scope hR hs).values
  · intro p hR
    cases p with
    | object id => exact forall_mem_elim fun o ho => (hobject id o hR ho).nodes
    | scope s => exact forall_mem_elim fun scope hs => (hscope s scope hR hs).nodes

end

end Heap

/-! ## The policy of a region -/

/-- A run stays in the region of the nodes that satisfy `R`, in which all values
satisfy `V`. -/
def Policy.region (V : Value → Prop) (R : Node → Prop) : Policy (Heap α) where
  Holds h := h.Encloses V R
  Leads h h' := h.SameBut R h'
  Fit _ v := v.Fits V R
  Within _ s := R (.scope s)

/-- What can be said of the values in a region: it is true of all values but
perhaps of errors and returns, and with a return of what is returned. -/
structure Value.Inherited (V : Value → Prop) : Prop where
  atom : ∀ v, v.IsAtom → V v
  func : ∀ id, V (.func id)
  array : ∀ id, V (.array id)
  hash : ∀ id, V (.hash id)
  ret : ∀ v, V (.ret v) → V v

theorem Value.nodes_of_isAtom {v : Value} (hv : v.IsAtom) : v.nodes = [] := by
  cases v with
  | ret | error | func | array | hash => exact hv.elim
  | _ => rfl

theorem Key.value_isAtom (k : Key) : k.value.IsAtom := by
  cases k <;> trivial

namespace Policy

variable {V : Value → Prop} {R : Node → Prop} {h : Heap α} {β : Type}

/-- The change may have come to nothing. -/
theorem region_admits_same (hh : h.Encloses V R) (b : β) {Q : Heap α → β → Prop} (hQ : Q h b) :
    (region V R).Admits h (b, h) Q :=
  ⟨hh, .refl R h, hQ⟩

/-- A new object that fits, and a value that stands for it. -/
theorem region_admits_alloc (hh : h.Encloses V R) {o : Object α} (ho : o.Fits V R)
    {ref : ObjectId → Value} (href : ∀ id, V (ref id))
    (hnodes : ∀ id, (ref id).nodes = [.object id]) :
    (region V R).Admits h (h.alloc o) fun _ id => (ref id).Fits V R := by
  have hnew : R (.object h.objects.size) := hh.new _ (Nat.le_refl _)
  constructor
  · refine hh.of_fits ?_ ?_ ?_ ?_
    · exact Nat.le.intro (Array.size_push o).symm
    · exact Nat.le_refl _
    · intro id o' hid ho'
      change (h.objects.push o)[id]? = some o' at ho'
      rw [Array.getElem?_push] at ho'
      split at ho'
      · rw [← Option.some.inj ho']
        exact ho
      · exact hh.object_fits hid ho'
    · exact fun _ _ => hh.scope_fits
  · constructor
    · intro id hid
      change (h.objects.push o)[id]? = h.objects[id]?
      rw [Array.getElem?_push, if_neg]
      rintro rfl
      exact hid hnew
    · exact fun _ _ => rfl
  · constructor
    · exact href _
    · intro q hq
      rw [hnodes] at hq
      rw [List.mem_singleton.mp hq]
      exact hnew

theorem withoutLast_fits {o : Object α} (ho : o.Fits V R) : (Heap.withoutLast o).Fits V R := by
  cases o with
  | array es =>
      apply Object.Fits.of_values
      · exact fun v hv => ho.of_mem (List.dropLast_subset es hv)
      · exact fun q hq => (List.not_mem_nil hq).elim
  | hash t => exact ho
  | func f => exact ho

theorem region_admits_modify_object (hh : h.Encloses V R) {id : ObjectId} (hid : R (.object id))
    {f : Object α → Object α} (hf : ∀ o, o.Fits V R → (f o).Fits V R) (b : β)
    {Q : Heap α → β → Prop} (hQ : ∀ h', Q h' b) :
    (region V R).Admits h (b, { h with objects := h.objects.modify id f }) Q := by
  constructor
  · refine hh.of_fits ?_ ?_ ?_ ?_
    · exact Nat.le_of_eq Array.size_modify.symm
    · exact Nat.le_refl _
    · intro id' o' hid' ho'
      change (h.objects.modify id f)[id']? = some o' at ho'
      rw [Array.getElem?_modify] at ho'
      split at ho'
      · next heq =>
          subst heq
          obtain ⟨o, ho, rfl⟩ := Option.map_eq_some_iff.mp ho'
          exact hf o (hh.object_fits hid ho)
      · exact hh.object_fits hid' ho'
    · exact fun _ _ => hh.scope_fits
  · constructor
    · intro id' hid'
      change (h.objects.modify id f)[id']? = h.objects[id']?
      rw [Array.getElem?_modify, if_neg]
      rintro rfl
      exact hid' hid
    · exact fun _ _ => rfl
  · exact hQ _

theorem scope_fits_bind {scope : Scope} (hscope : scope.Fits V R) (x : String) {b : Binding}
    (hb : b.value.Fits V R) : (scope.bind x b).Fits V R := by
  apply Scope.Fits.of_values
  · intro v hv
    rcases Scope.mem_values_bind hv with rfl | hold
    · exact hb
    · exact hscope.of_mem hold
  · rw [Scope.outer_bind]
    exact fun o => hscope.of_outer

theorem region_admits_bind (hh : h.Encloses V R) {s : ScopeId} (hs : R (.scope s)) (x : String)
    {b : Binding} (hb : b.value.Fits V R) (c : β) {Q : Heap α → β → Prop} (hQ : ∀ h', Q h' c) :
    (region V R).Admits h (c, h.bind s x b) Q := by
  constructor
  · refine hh.of_fits ?_ ?_ ?_ ?_
    · exact Nat.le_refl _
    · exact Nat.le_of_eq Array.size_modify.symm
    · exact fun _ _ => hh.object_fits
    · intro s' scope' hs' hscope'
      change (h.scopes.modify s _)[s']? = some scope' at hscope'
      rw [Array.getElem?_modify] at hscope'
      split at hscope'
      · next heq =>
          subst heq
          obtain ⟨scope, hscope, rfl⟩ := Option.map_eq_some_iff.mp hscope'
          exact scope_fits_bind (hh.scope_fits hs hscope) x hb
      · exact hh.scope_fits hs' hscope'
  · constructor
    · exact fun _ _ => rfl
    · intro s' hs'
      change (h.scopes.modify s _)[s']? = h.scopes[s']?
      rw [Array.getElem?_modify, if_neg]
      rintro rfl
      exact hs' hs
  · exact hQ _

theorem region_admits_enter (hh : h.Encloses V R) {outer : ScopeId} (houter : R (.scope outer))
    (params : List String) {args : List Value} (hargs : ∀ v ∈ args, v.Fits V R) :
    (region V R).Admits h (h.enter outer params args) fun _ s => R (.scope s) := by
  rw [Heap.enter_eq]
  have hnew : R (.scope h.scopes.size) := hh.new _ (Nat.le_refl _)
  have hentered :
      (Scope.mk (Assoc.ofList (params.zip args)) Assoc.empty (some outer)).Fits V R := by
    apply Scope.Fits.of_values
    · intro v hv
      rcases List.mem_append.mp hv with hvariable | hconstant
      · exact hargs v (mem_args_of_mem_values hvariable)
      · cases hconstant
    · rintro _ ⟨⟩
      exact houter
  constructor
  · refine hh.of_fits ?_ ?_ ?_ ?_
    · exact Nat.le_refl _
    · exact Nat.le.intro (Array.size_push _).symm
    · exact fun _ _ => hh.object_fits
    · intro s scope hs hscope
      change (h.scopes.push _)[s]? = some scope at hscope
      rw [Array.getElem?_push] at hscope
      split at hscope
      · rw [← Option.some.inj hscope]
        exact hentered
      · exact hh.scope_fits hs hscope
  · constructor
    · exact fun _ _ => rfl
    · intro s hs
      change (h.scopes.push _)[s]? = h.scopes[s]?
      rw [Array.getElem?_push, if_neg]
      rintro rfl
      exact hs hnew
  · exact hnew

/-! ## The policy is sound -/

theorem array_fits {es : List Value} (hes : ∀ v ∈ es, v.Fits V R) :
    (Object.array es : Object α).Fits V R := by
  apply Object.Fits.of_values
  · exact hes
  · exact fun q hq => (List.not_mem_nil hq).elim

theorem atom_fits (hV : Value.Inherited V) {v : Value} (hv : v.IsAtom) : v.Fits V R := by
  constructor
  · exact hV.atom v hv
  · rw [Value.nodes_of_isAtom hv]
    exact fun q hq => (List.not_mem_nil hq).elim

theorem hash_fits (hV : Value.Inherited V) {t : Table} (ht : ∀ p ∈ t.pairs, p.2.Fits V R) :
    (Object.hash t : Object α).Fits V R := by
  apply Object.Fits.of_values
  · intro v hv
    obtain ⟨p, hp, hv⟩ := List.mem_flatMap.mp hv
    rcases List.mem_cons.mp hv with rfl | hv
    · exact atom_fits hV p.1.value_isAtom
    · rw [List.mem_singleton.mp hv]
      exact ht p hp
  · exact fun q hq => (List.not_mem_nil hq).elim

theorem func_fits {f : Closure α} (hf : R (.scope f.scope)) : (Object.func f).Fits V R := by
  apply Object.Fits.of_values
  · exact fun v hv => (List.not_mem_nil hv).elim
  · intro q hq
    rw [List.mem_singleton.mp hq]
    exact hf

/-- What a node in the region holds fits. -/
theorem fits_of_mem_values (hh : h.Encloses V R) {p : Node} (hp : R p) {v : Value}
    (hv : v ∈ h.values p) : v.Fits V R :=
  ⟨hh.values p hp v hv, fun q hq => hh.links p hp q (Heap.mem_links_of_mem_values hv hq)⟩

/-- The scope that binds a name, seen from a scope in the region, is in the
region, and so is the value. -/
theorem holder_fits (hh : h.Encloses V R) {s t : ScopeId} (hs : R (.scope s)) {x : String}
    {b : Binding} (hfound : h.holder? s x = some (t, b)) :
    R (.scope t) ∧ b.value.Fits V R := by
  obtain ⟨ht, hb⟩ := Heap.mem_of_holderIn hfound
  have hR : R (.scope t) := Heap.outward_induction hh.links _ hs ht
  exact ⟨hR, fits_of_mem_values hh hR (Heap.mem_values_of_binding? hb)⟩

theorem region_admits_pop (hh : h.Encloses V R) {id : ObjectId} (hid : R (.object id)) :
    (region V R).Admits h (h.pop id) fun _ last => ∀ v, last = some v → v.Fits V R := by
  rw [Heap.pop]
  cases hlast : (h.elements id).getLast? with
  | none =>
      refine region_admits_same hh none ?_
      rintro _ ⟨⟩
  | some v =>
      have hv : v ∈ h.values (.object id) :=
        Heap.mem_values_of_elements (List.mem_of_getLast? hlast)
      refine region_admits_modify_object hh hid (fun o => withoutLast_fits) (some v) fun _ => ?_
      rintro _ ⟨⟩
      exact fits_of_mem_values hh hid hv

theorem region_admits_declare (hh : h.Encloses V R) (kind : BindingKind) {s : ScopeId}
    (hs : R (.scope s)) (x : String) {v : Value} (hv : v.Fits V R) :
    (region V R).Admits h (h.declare kind s x v) fun _ _ => True := by
  rcases h.declare_cases kind s x v with ⟨e, heq⟩ | ⟨heq, -⟩ <;> rw [heq]
  · exact region_admits_same hh _ trivial
  · exact region_admits_bind hh hs x hv _ fun _ => trivial

theorem region_admits_assign (hh : h.Encloses V R) {s : ScopeId} (hs : R (.scope s)) (x : String)
    {v : Value} (hv : v.Fits V R) :
    (region V R).Admits h (h.assign s x v) fun _ _ => True := by
  unfold Heap.assign
  split
  · exact region_admits_same hh _ trivial
  · exact region_admits_same hh _ trivial
  · next t w hfound =>
      exact region_admits_bind hh (holder_fits hh hs hfound).1 x hv _ fun _ => trivial

theorem region_sound (hV : Value.Inherited V) : (region V R : Policy (Heap α)).Sound where
  refl := Heap.SameBut.refl R
  trans := Heap.SameBut.trans
  fit_mono _ hv := hv
  within_mono _ hs := hs
  atom hv := atom_fits hV hv
  ret hv := ⟨hV.ret _ hv.value, hv.nodes⟩
  lookup hh hs hfound := by
    obtain ⟨⟨t, b⟩, hholder, rfl⟩ := Option.map_eq_some_iff.mp hfound
    exact (holder_fits hh hs hholder).2
  element hh hid hv := fits_of_mem_values hh (hid.nodes _ List.mem_cons_self)
    (Heap.mem_values_of_elements hv)
  pair hh hid hp := fits_of_mem_values hh (hid.nodes _ List.mem_cons_self)
    (Heap.mem_values_of_table hp)
  array hh hes := region_admits_alloc hh (array_fits hes) hV.array fun _ => rfl
  hash hh ht := region_admits_alloc hh (hash_fits hV ht) hV.hash fun _ => rfl
  func {_ scope} idents body hh hs :=
    region_admits_alloc hh (func_fits (f := ⟨idents, body, scope⟩) hs) hV.func fun _ => rfl
  pop hh hid := region_admits_pop hh (hid.nodes _ List.mem_cons_self)
  declare kind x hh hs hv := region_admits_declare hh kind hs x hv
  assign x hh hs hv := region_admits_assign hh hs x hv
  enter {h id f args} hh hid hf hargs := by
    have hscope : R (.scope f.scope) :=
      hh.links _ (hid.nodes _ List.mem_cons_self) _ (Heap.mem_links_of_closure? hf)
    exact region_admits_enter hh hscope f.params hargs

end Policy

end MonkeyLang
