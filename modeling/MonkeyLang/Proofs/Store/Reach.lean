import MonkeyLang.Proofs.Store.Contents
import Mathlib.Logic.Relation

/-!
# What can be reached in a heap

The nodes of a heap are its objects and its scopes.  A node holds values: the
elements of an array, the keys and values of a hash, the values of bindings.  It
leads to the nodes of these values, and besides a function leads to the scope
that it was written in, and a scope to the scope around it.
-/

namespace MonkeyLang

variable {α : Type}

/-- A node of a heap. -/
inductive Node where
  | object (id : ObjectId)
  | scope (id : ScopeId)
  deriving DecidableEq, Repr

/-- The nodes that a value stands for. -/
def Value.nodes : Value → List Node
  | func id | array id | hash id => [.object id]
  | ret v => v.nodes
  | _ => []

/-- The values that an object holds. -/
def Object.values : Object α → List Value
  | .array es => es
  | .hash t => t.pairs.flatMap fun p => [p.1.value, p.2]
  | .func _ => []

/-- The scope that a function belongs to. -/
def Object.captured : Object α → List Node
  | .func f => [.scope f.scope]
  | .array _ | .hash _ => []

/-- The nodes that an object leads to. -/
def Object.nodes (o : Object α) : List Node :=
  o.values.flatMap Value.nodes ++ o.captured

/-- The values that a scope holds. -/
def Scope.values (scope : Scope) : List Value :=
  scope.vars.values ++ scope.consts.values

/-- The nodes that a scope leads to. -/
def Scope.nodes (scope : Scope) : List Node :=
  scope.values.flatMap Value.nodes ++ scope.outer.toList.map .scope

theorem Scope.mem_values_of_find? {scope : Scope} {kind : BindingKind} {x : String} {v : Value}
    (hv : (scope.bindings kind).find? x = some v) : v ∈ scope.values := by
  cases kind with
  | var => exact List.mem_append_left _ (Assoc.mem_values_of_find? hv)
  | val => exact List.mem_append_right _ (Assoc.mem_values_of_find? hv)

theorem Scope.mem_values_bind {scope : Scope} {x : String} {b : Binding} {v : Value}
    (hv : v ∈ (scope.bind x b).values) : v = b.value ∨ v ∈ scope.values := by
  obtain ⟨kind, w⟩ := b
  cases kind with
  | var =>
      rcases List.mem_append.mp hv with hv | hv
      · exact (Assoc.mem_values_insert hv).imp_right (List.mem_append_left _)
      · exact Or.inr (List.mem_append_right _ hv)
  | val =>
      rcases List.mem_append.mp hv with hv | hv
      · exact Or.inr (List.mem_append_left _ hv)
      · exact (Assoc.mem_values_insert hv).imp_right (List.mem_append_right _)

namespace Heap

/-- The values that a node holds. -/
def values (h : Heap α) : Node → List Value
  | .object id => (h.objects[id]?).elim [] Object.values
  | .scope s => (h.scopes[s]?).elim [] Scope.values

/-- The nodes that a node leads to. -/
def links (h : Heap α) : Node → List Node
  | .object id => (h.objects[id]?).elim [] Object.nodes
  | .scope s => (h.scopes[s]?).elim [] Scope.nodes

/-- Whether a node can be reached from one of some nodes. -/
def Reaches (h : Heap α) (roots : List Node) (q : Node) : Prop :=
  ∃ p ∈ roots, Relation.ReflTransGen (fun p q => q ∈ h.links p) p q

/-- Whether a node is beyond the heap, so that only something made later can
be there. -/
def IsNew (h : Heap α) : Node → Prop
  | .object id => h.objects.size ≤ id
  | .scope s => h.scopes.size ≤ s

variable {h : Heap α} {roots : List Node} {p q : Node}

theorem reaches_root (hp : p ∈ roots) : h.Reaches roots p :=
  ⟨p, hp, .refl⟩

theorem Reaches.link (hp : h.Reaches roots p) (hq : q ∈ h.links p) : h.Reaches roots q := by
  obtain ⟨r, hr, hpath⟩ := hp
  exact ⟨r, hr, hpath.tail hq⟩

/-- What holds of the roots and goes along with the links holds of all nodes
that can be reached. -/
theorem Reaches.induction {R : Node → Prop} (hroots : ∀ p ∈ roots, R p)
    (hlinks : ∀ p, R p → ∀ q ∈ h.links p, R q) (hq : h.Reaches roots q) : R q := by
  obtain ⟨p, hp, hpath⟩ := hq
  induction hpath with
  | refl => exact hroots p hp
  | tail _ hlink ih => exact hlinks _ ih _ hlink

/-- Nothing is in a node beyond the heap. -/
theorem IsNew.links_eq (hp : h.IsNew p) : h.links p = [] := by
  cases p with
  | object id => rw [links, Array.getElem?_eq_none hp, Option.elim_none]
  | scope s => rw [links, Array.getElem?_eq_none hp, Option.elim_none]

theorem IsNew.values_eq (hp : h.IsNew p) : h.values p = [] := by
  cases p with
  | object id => rw [values, Array.getElem?_eq_none hp, Option.elim_none]
  | scope s => rw [values, Array.getElem?_eq_none hp, Option.elim_none]

theorem mem_values_of_elements {id : ObjectId} {v : Value} (hv : v ∈ h.elements id) :
    v ∈ h.values (.object id) := by
  rw [elements] at hv
  split at hv
  · next es ho =>
      rw [values, ho]
      exact hv
  · cases hv

theorem mem_values_of_table {id : ObjectId} {p : Key × Value} (hp : p ∈ (h.table id).pairs) :
    p.2 ∈ h.values (.object id) := by
  rw [table] at hp
  split at hp
  · next t ho =>
      rw [values, ho]
      exact List.mem_flatMap.mpr ⟨p, hp, List.mem_cons_of_mem _ List.mem_cons_self⟩
  · cases hp

theorem mem_links_of_closure? {id : ObjectId} {f : Closure α} (hf : h.closure? id = some f) :
    .scope f.scope ∈ h.links (.object id) := by
  rw [closure?] at hf
  split at hf
  · next f' ho =>
      obtain rfl := Option.some.inj hf
      rw [links, ho]
      exact List.mem_append_right _ List.mem_cons_self
  · cases hf

/-! ## The scopes outward from a scope -/

theorem mem_of_holderIn {x : String} {ss : List ScopeId} {t : ScopeId} {b : Binding}
    (hfound : h.holderIn x ss = some (t, b)) : t ∈ ss ∧ h.binding? t x = some b := by
  induction ss with
  | nil => cases hfound
  | cons s ss ih =>
      rw [holderIn] at hfound
      split at hfound
      · next b' hb =>
          obtain ⟨rfl, rfl⟩ := Prod.mk.inj (Option.some.inj hfound)
          exact ⟨List.mem_cons_self, hb⟩
      · obtain ⟨hmem, hb⟩ := ih hfound
        exact ⟨List.mem_cons_of_mem _ hmem, hb⟩

/-- What goes along with the links holds of all scopes outward from a scope of
which it holds. -/
theorem outward_induction {R : Node → Prop} (hlinks : ∀ p, R p → ∀ q ∈ h.links p, R q) (n : Nat)
    {s t : ScopeId} (hs : R (.scope s)) (ht : t ∈ h.outward n s) : R (.scope t) := by
  induction n generalizing s with
  | zero => cases ht
  | succ n ih =>
      rw [outward] at ht
      cases hscope : h.scopes[s]? with
      | none =>
          rw [hscope] at ht
          cases ht
      | some scope =>
          simp only [hscope] at ht
          cases houter : scope.outer with
          | none =>
              simp only [houter] at ht
              rwa [List.mem_singleton.mp ht]
          | some o =>
              simp only [houter] at ht
              rcases List.mem_cons.mp ht with rfl | ht
              · exact hs
              · refine ih (hlinks _ hs _ ?_) ht
                rw [links, hscope, Option.elim_some, Scope.nodes, houter]
                exact List.mem_append_right _ List.mem_cons_self

/-- A name is bound to what it is among the variables or the constants. -/
theorem bound?_of_binding? {s : ScopeId} {x : String} {b : Binding}
    (hb : h.binding? s x = some b) : h.bound? s b.kind x = some b.value := by
  rw [binding?] at hb
  split at hb
  · next v hvar =>
      obtain rfl := Option.some.inj hb
      exact hvar
  · obtain ⟨v, hval, rfl⟩ := Option.map_eq_some_iff.mp hb
    exact hval

theorem exists_scope_of_bound? {s : ScopeId} {kind : BindingKind} {x : String} {v : Value}
    (hv : h.bound? s kind x = some v) :
    ∃ scope, h.scopes[s]? = some scope ∧ (scope.bindings kind).find? x = some v := by
  rw [bound?] at hv
  split at hv
  · cases hv
  · next scope hscope => exact ⟨scope, hscope, hv⟩

/-- The value of a binding is held by the scope. -/
theorem mem_values_of_binding? {s : ScopeId} {x : String} {b : Binding}
    (hb : h.binding? s x = some b) : b.value ∈ h.values (.scope s) := by
  obtain ⟨scope, hscope, hv⟩ := exists_scope_of_bound? (bound?_of_binding? hb)
  rw [values, hscope]
  exact Scope.mem_values_of_find? hv

/-- A node leads to the nodes of the values that it holds. -/
theorem mem_links_of_mem_values {v : Value} (hv : v ∈ h.values p) (hq : q ∈ v.nodes) :
    q ∈ h.links p := by
  cases p with
  | object id =>
      rw [values] at hv
      rw [links]
      cases ho : h.objects[id]? with
      | none =>
          rw [ho] at hv
          cases hv
      | some o =>
          rw [ho] at hv
          exact List.mem_append_left _ (List.mem_flatMap.mpr ⟨v, hv, hq⟩)
  | scope s =>
      rw [values] at hv
      rw [links]
      cases hscope : h.scopes[s]? with
      | none =>
          rw [hscope] at hv
          cases hv
      | some scope =>
          rw [hscope] at hv
          exact List.mem_append_left _ (List.mem_flatMap.mpr ⟨v, hv, hq⟩)

end Heap

end MonkeyLang
