import MonkeyLang.Proofs.Tree.Map
import MonkeyLang.Run.Operator
import MonkeyLang.Store.Display

/-!
# Heaps with other annotations

The functions of a heap keep annotations, and nothing else in it does.  So
whatever is done with a heap can be done with the annotations changed, before
or after.
-/

namespace MonkeyLang

variable {α β γ : Type}

/-- The same function with other annotations. -/
def Closure.map (f : α → β) (c : Closure α) : Closure β :=
  ⟨c.idents.map (·.map f), c.body.map f, c.scope⟩

/-- The same object with other annotations. -/
def Object.map (f : α → β) : Object α → Object β
  | .array es => .array es
  | .hash t => .hash t
  | .func c => .func (c.map f)

/-- The same heap with other annotations. -/
def Heap.map (f : α → β) (h : Heap α) : Heap β :=
  ⟨h.objects.map (Object.map f), h.scopes⟩

/-- The heap alone, without annotations. -/
def Heap.erase (h : Heap α) : Heap :=
  h.map fun _ => ()

section

variable (f : α → β)

@[simp]
theorem Closure.params_map (c : Closure α) : (c.map f).params = c.params := by
  simp [Closure.map, Closure.params, Ident.map, Function.comp_def]

@[simp]
theorem Closure.display_map (c : Closure α) : (c.map f).display = c.display := by
  rw [Closure.display, Closure.params_map, Closure.display]
  simp [Closure.map]

theorem Closure.map_id (c : Closure α) : c.map id = c := by
  obtain ⟨idents, body, scope⟩ := c
  simp [Closure.map, Ident.map]

theorem Object.map_id (o : Object α) : o.map id = o := by
  cases o with
  | array es => rfl
  | hash t => rfl
  | func c => rw [Object.map, Closure.map_id]

end

namespace Heap

variable (f : α → β) (h : Heap α)

theorem map_id : h.map id = h := by
  have hid : (Object.map id : Object α → Object α) = id := funext Object.map_id
  rw [map, hid, Array.map_id]

@[simp]
theorem scopes_map : (h.map f).scopes = h.scopes := rfl

theorem getElem?_objects_map (id : ObjectId) :
    (h.map f).objects[id]? = (h.objects[id]?).map (Object.map f) :=
  Array.getElem?_map

/-! ## Objects -/

@[simp]
theorem elements_map (id : ObjectId) : (h.map f).elements id = h.elements id := by
  rw [elements, elements, getElem?_objects_map]
  cases h.objects[id]? with
  | none => rfl
  | some o => cases o <;> rfl

@[simp]
theorem table_map (id : ObjectId) : (h.map f).table id = h.table id := by
  rw [table, table, getElem?_objects_map]
  cases h.objects[id]? with
  | none => rfl
  | some o => cases o <;> rfl

@[simp]
theorem closure?_map (id : ObjectId) :
    (h.map f).closure? id = (h.closure? id).map (Closure.map f) := by
  rw [closure?, closure?, getElem?_objects_map]
  cases h.objects[id]? with
  | none => rfl
  | some o => cases o <;> rfl

theorem alloc_map (o : Object α) : (h.map f).alloc (o.map f) = (h.alloc o).map id (map f) := by
  simp [alloc, map]

theorem withoutLast_map (o : Object α) : withoutLast (o.map f) = (withoutLast o).map f := by
  cases o <;> rfl

theorem pop_map (i : ObjectId) : (h.map f).pop i = (h.pop i).map id (map f) := by
  have hobjects : (h.map f).objects.modify i withoutLast =
      (h.objects.modify i withoutLast).map (Object.map f) := by
    refine Array.ext_getElem? fun j => ?_
    rw [Array.getElem?_modify, Array.getElem?_map, Array.getElem?_modify, getElem?_objects_map]
    split
    · cases h.objects[j]? with
      | none => rfl
      | some o => exact congrArg some (withoutLast_map f o)
    · rfl
  rw [pop, pop, elements_map]
  cases (h.elements i).getLast? with
  | none => rfl
  | some v => exact congrArg (fun objects => (some v, Heap.mk objects h.scopes)) hobjects

theorem index_map [Digest] (v w : Value) : (h.map f).index v w = h.index v w := by
  cases v <;> cases w <;> simp [index]

/-! ## Scopes -/

@[simp]
theorem bound?_map (s : ScopeId) (kind : BindingKind) (x : String) :
    (h.map f).bound? s kind x = h.bound? s kind x := rfl

theorem binding?_map (s : ScopeId) (x : String) : (h.map f).binding? s x = h.binding? s x := rfl

theorem outward_map (n : Nat) (s : ScopeId) : (h.map f).outward n s = h.outward n s := by
  induction n generalizing s with
  | zero => rfl
  | succ n ih => simp only [outward, scopes_map, ih]

theorem holderIn_map (x : String) (ss : List ScopeId) :
    (h.map f).holderIn x ss = h.holderIn x ss := by
  induction ss with
  | nil => rfl
  | cons s ss ih => simp only [holderIn, binding?_map, ih]

@[simp]
theorem holder?_map (s : ScopeId) (x : String) : (h.map f).holder? s x = h.holder? s x := by
  rw [holder?, holder?, chain, chain, outward_map, holderIn_map]

@[simp]
theorem lookup_map (s : ScopeId) (x : String) : (h.map f).lookup s x = h.lookup s x := by
  rw [lookup, lookup, holder?_map]

theorem enter_map (outer : ScopeId) (params : List String) (args : List Value) :
    (h.map f).enter outer params args = (h.enter outer params args).map id (map f) := by
  rw [enter_eq, enter_eq]
  rfl

theorem declare_map (kind : BindingKind) (s : ScopeId) (x : String) (v : Value) :
    (h.map f).declare kind s x v = (h.declare kind s x v).map id (map f) := by
  cases kind with
  | var | val =>
      simp only [declare, bound?_map, apply_ite (Prod.map id (map f))]
      rfl

theorem assign_map (s : ScopeId) (x : String) (v : Value) :
    (h.map f).assign s x v = (h.assign s x v).map id (map f) := by
  simp only [assign, holder?_map]
  split <;> rfl

/-! ## Texts -/

theorem displayObject_map (n : Nat) (id : ObjectId) :
    (h.map f).displayObject n id = h.displayObject n id := by
  induction n generalizing id with
  | zero => rfl
  | succ n ih =>
      have hfun : (h.map f).displayObject n = h.displayObject n := funext ih
      rw [displayObject, displayObject, getElem?_objects_map, hfun]
      cases h.objects[id]? with
      | none => rfl
      | some o =>
          cases o with
          | array es => rfl
          | hash t => rfl
          | func c => exact c.display_map f

@[simp]
theorem display_map (v : Value) : (h.map f).display v = h.display v := by
  have hfun : (h.map f).displayObject = h.displayObject :=
    funext fun n => funext fun id => displayObject_map f h n id
  rw [display, display, hfun, map, Array.size_map]

end Heap

end MonkeyLang
