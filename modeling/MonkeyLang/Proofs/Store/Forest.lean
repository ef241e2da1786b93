import Mathlib.Logic.ExistsUnique
import MonkeyLang.Proofs.Store.Search

/-!
# Names in a forest of scopes

Scopes are made on their own or inside of others, and names are declared and assigned in
them.  Whatever is done in whatever order, what a name means in a scope is told by its
nearest binding, that of the first scope outward from there that binds it at all.

All that is done is to bind one name in one scope.  So the question is from which scopes
this is seen: from those from which that scope is met before any other that binds the name.
-/

namespace MonkeyLang

variable {α : Type}

namespace Heap

/-- The heaps in which scopes have been made one after the other, on their own or inside of
one that was there, while names were declared and assigned in them. -/
inductive IsForest : Heap α → Prop
  | start (objects : Array (Object α)) : IsForest ⟨objects, #[]⟩
  | alone {h} (hh : IsForest h) : IsForest (h.addScope (.empty none)).2
  | enclosed {h outer} (hh : IsForest h) (houter : outer < h.scopes.size) :
      IsForest (h.enclose outer).2
  | declared {h s} (hh : IsForest h) (hs : s < h.scopes.size) (kind : BindingKind) (x : String)
      (v : Value) : IsForest (h.declare kind s x v).2
  | assigned {h s} (hh : IsForest h) (hs : s < h.scopes.size) (x : String) (v : Value) :
      IsForest (h.assign s x v).2

/-- The nearest binding of a name in a scope: the first scope from there outward that binds
the name in either way, with the binding, or none if there is no such scope. -/
def Nearest (h : Heap α) (s : ScopeId) (x : String) : Option (ScopeId × Binding) → Prop :=
  h.SearchEnds (fun t => (h.binding? t x).map (t, ·)) s

/-- From a scope outward, the scope `s` is met before any other one that binds the name. -/
inductive Meets (h : Heap α) (x : String) (s : ScopeId) : ScopeId → Prop
  | here : Meets h x s s
  | outward {t o} (hnone : h.binding? t x = none) (ho : h.outer? t = some o)
      (hm : Meets h x s o) : Meets h x s t

variable {h : Heap α} {s t : ScopeId} {x y : String} {b : Binding}
  {r : Option (ScopeId × Binding)}

/-! ## The operations on scopes -/

theorem size_scopes_bind (h : Heap α) (s : ScopeId) (x : String) (b : Binding) :
    (h.bind s x b).scopes.size = h.scopes.size :=
  Array.size_modify

theorem IsForest.outer_lt (hh : h.IsForest) : ∀ s o, h.outer? s = some o → o < s := by
  induction hh with
  | start objects => rintro s o ⟨⟩
  | alone _ ih =>
      intro s o ho
      rcases outer?_addScope ho with hold | ⟨rfl, hnew⟩
      · exact ih s o hold
      · cases hnew
  | enclosed _ houter ih =>
      intro s o ho
      rcases outer?_addScope ho with hold | ⟨rfl, hnew⟩
      · exact ih s o hold
      · cases hnew
        exact houter
  | @declared h s _ _ kind x v ih =>
      rcases h.declare_cases kind s x v with ⟨e, heq⟩ | ⟨heq, -⟩ <;> rw [heq]
      · exact ih
      · simpa only [outer?_bind] using ih
  | @assigned h s _ _ x v ih =>
      rcases h.assign_cases s x v with ⟨⟨e, heq⟩, -⟩ | ⟨t, w, -, heq⟩ <;> rw [heq]
      · exact ih
      · simpa only [outer?_bind] using ih

/-! ## Nearest bindings -/

theorem Nearest.unique {r' : Option (ScopeId × Binding)} (hr : h.Nearest s x r)
    (hr' : h.Nearest s x r') : r = r' :=
  SearchEnds.unique hr hr'

theorem IsForest.nearest_iff (hh : h.IsForest) (hs : s < h.scopes.size) :
    h.Nearest s x r ↔ r = h.holder? s x := by
  have hholder : h.Nearest s x (h.holder? s x) := searchEnds_holder? hh.outer_lt hs x
  exact ⟨fun hr => hr.unique hholder, fun heq => heq ▸ hholder⟩

theorem lookup_eq_none_iff (h : Heap α) (s : ScopeId) (x : String) :
    h.lookup s x = none ↔ h.existsBinding s .var x = false ∧ h.existsBinding s .val x = false := by
  rw [lookup, Option.map_eq_none_iff, holder?, existsBinding, existsBinding]
  induction h.chain s with
  | nil => exact ⟨fun _ => ⟨rfl, rfl⟩, fun _ => rfl⟩
  | cons t ts ih =>
      rw [holderIn, List.any_cons, List.any_cons]
      cases hb : h.binding? t x with
      | none =>
          obtain ⟨hvar, hval⟩ := binding?_eq_none_iff.mp hb
          rw [hvar, hval]
          exact ih
      | some b =>
          have hbound := bound?_of_binding? hb
          obtain ⟨kind, v⟩ := b
          cases kind <;> simp [hbound]

/-- Where the scope is met, the name is seen to be bound in it. -/
theorem Meets.nearest_bind (hs : s < h.scopes.size)
    (hb : h.MayBind s x b.kind) (hm : h.Meets x s t) :
    (h.bind s x b).Nearest t x (some (s, b)) := by
  have hbound : (h.bind s x b).Nearest s x (some (s, b)) := by
    refine .found (by rwa [size_scopes_bind]) ?_
    rw [binding?_bind hs hb]
    rfl
  induction hm with
  | here => exact hbound
  | @outward t o hnone ho _ ih =>
      by_cases hst : s = t
      · exact hst ▸ hbound
      · refine .outward ?_ ((outer?_bind h s x b t).trans ho) ih
        rw [binding?_bind_ne fun hboth => hst hboth.1, hnone]
        rfl

/-- Where the scope is not met, or another name is looked for, nothing is seen of it. -/
theorem Nearest.bind (hr : h.Nearest t y r) (b : Binding) (hm : ¬(y = x ∧ h.Meets x s t)) :
    (h.bind s x b).Nearest t y r := by
  have same {t : ScopeId} (hm : ¬(y = x ∧ h.Meets x s t)) :
      (h.bind s x b).binding? t y = h.binding? t y := by
    refine binding?_bind_ne ?_ b
    rintro ⟨rfl, rfl⟩
    exact hm ⟨rfl, .here⟩
  induction hr with
  | found ht hb => exact .found (by rwa [size_scopes_bind]) (by rw [same hm, hb])
  | outward hnone ho _ ih =>
      refine .outward (by rw [same hm, hnone]) ((outer?_bind h s x b _).trans ho) (ih ?_)
      rintro ⟨rfl, hmo⟩
      exact hm ⟨rfl, .outward (Option.map_eq_none_iff.mp hnone) ho hmo⟩
  | exhausted ht hnone ho =>
      exact .exhausted (by rwa [size_scopes_bind]) (by rw [same hm, hnone])
        ((outer?_bind h s x b _).trans ho)

/-- A scope that binds a name is met before the others where the nearest binding is its own. -/
theorem meets_iff_nearest (hs : s < h.scopes.size) (hb : h.binding? s x = some b) :
    h.Meets x s t ↔ h.Nearest t x (some (s, b)) := by
  constructor
  · intro hm
    induction hm with
    | here => exact .found hs (by rw [hb]; rfl)
    | outward hnone ho _ ih => exact .outward (by rw [hnone]; rfl) ho ih
  · intro hn
    generalize hr : some (s, b) = r at hn
    induction hn with
    | found ht hfound =>
        obtain ⟨b', -, heq⟩ := Option.map_eq_some_iff.mp hfound
        obtain ⟨rfl, -⟩ := Prod.mk.inj (heq.trans (Option.some.inj hr).symm)
        exact .here
    | outward hnone ho _ ih => exact .outward (Option.map_eq_none_iff.mp hnone) ho (ih hr)
    | exhausted => cases hr

theorem binding?_of_nearest (hn : h.Nearest t x (some (s, b))) :
    s < h.scopes.size ∧ h.binding? s x = some b := by
  generalize hr : some (s, b) = r at hn
  induction hn with
  | found ht hfound =>
      obtain ⟨b', hb', heq⟩ := Option.map_eq_some_iff.mp hfound
      obtain ⟨rfl, rfl⟩ := Prod.mk.inj (heq.trans (Option.some.inj hr).symm)
      exact ⟨ht, hb'⟩
  | outward _ _ _ ih => exact ih hr
  | exhausted => cases hr

/-! ## What is seen of a binding -/

/-- What is seen in all scopes of a name being bound in one of them. -/
theorem lookup_bind (hh : (h.bind s x b).IsForest) (hh' : h.IsForest) (hs : s < h.scopes.size)
    (hb : h.MayBind s x b.kind) (ht : t < h.scopes.size) (y : String) :
    (y = x ∧ h.Meets x s t → (h.bind s x b).lookup t y = some b.value) ∧
      (¬(y = x ∧ h.Meets x s t) → (h.bind s x b).lookup t y = h.lookup t y) := by
  have ht' : t < (h.bind s x b).scopes.size := by rwa [size_scopes_bind]
  constructor
  · rintro ⟨rfl, hm⟩
    rw [lookup, ← (hh.nearest_iff ht').mp (hm.nearest_bind hs hb)]
    rfl
  · intro hm
    have hn : h.Nearest t y (h.holder? t y) := (hh'.nearest_iff ht).mpr rfl
    rw [lookup, ← (hh.nearest_iff ht').mp (hn.bind b hm), lookup]

/-- What a name means in a scope is told by its nearest binding, before and after each of
the operations on the scopes of a heap. -/
structure LexicallyScoped (h : Heap α) : Prop where
  /-- There is one nearest binding, or none. -/
  nearest : ∀ s x, s < h.scopes.size → ∃! r, h.Nearest s x r
  /-- A name has the value of its nearest binding. -/
  lookup : ∀ s x r, s < h.scopes.size → h.Nearest s x r → h.lookup s x = r.map (·.2.value)
  /-- A name has no value if it exists neither as a variable nor as a constant. -/
  lookup_none : ∀ s x, h.lookup s x = none ↔
    h.existsBinding s .var x = false ∧ h.existsBinding s .val x = false
  /-- A name can be assigned to if its nearest binding is a variable. -/
  assign_ok : ∀ s x v, s < h.scopes.size →
    ((h.assign s x v).1 = .ok () ↔ ∃ t w, h.Nearest s x (some (t, ⟨.var, w⟩)))
  /-- The value assigned is seen where the nearest binding of the name is in the same scope. -/
  assign_lookup : ∀ s x v t₀ w, s < h.scopes.size → h.Nearest s x (some (t₀, ⟨.var, w⟩)) →
    ∀ t y, t < h.scopes.size →
      ((y = x ∧ ∃ b, h.Nearest t x (some (t₀, b))) → (h.assign s x v).2.lookup t y = some v) ∧
      (¬(y = x ∧ ∃ b, h.Nearest t x (some (t₀, b))) →
        (h.assign s x v).2.lookup t y = h.lookup t y)
  /-- No scope gains or loses a variable or a constant when something is assigned. -/
  assign_names : ∀ s x v t kind y,
    ((h.assign s x v).2.bound? t kind y).isSome = (h.bound? t kind y).isSome
  /-- A declaration changes one name in one scope. -/
  declare_binding : ∀ kind s x v t kind' y, ¬(t = s ∧ y = x) →
    (h.declare kind s x v).2.bound? t kind' y = h.bound? t kind' y
  /-- A declaration is seen where its scope is met before any other that binds the name. -/
  declare_lookup : ∀ kind s x v, s < h.scopes.size → (h.declare kind s x v).1 = .ok () →
    ∀ t y, t < h.scopes.size →
      (y = x ∧ h.Meets x s t → (h.declare kind s x v).2.lookup t y = some v) ∧
      (¬(y = x ∧ h.Meets x s t) → (h.declare kind s x v).2.lookup t y = h.lookup t y)
  /-- A declaration that is refused changes no value of a name. -/
  declare_refused : ∀ kind s x v e, (h.declare kind s x v).1 = .error e →
    ∀ t y, (h.declare kind s x v).2.lookup t y = h.lookup t y
  /-- Nor does an assignment that is refused. -/
  assign_refused : ∀ s x v e, (h.assign s x v).1 = .error e →
    ∀ t y, (h.assign s x v).2.lookup t y = h.lookup t y

/-- Every forest of scopes is lexically scoped. -/
theorem forests_lexically_scoped (hh : h.IsForest) : h.LexicallyScoped where
  nearest s x hs := ⟨_, (hh.nearest_iff hs).mpr rfl, fun _ hr => (hh.nearest_iff hs).mp hr⟩
  lookup s x r hs hr := by rw [(hh.nearest_iff hs).mp hr, Heap.lookup]
  lookup_none := h.lookup_eq_none_iff
  assign_ok s x v hs := by
    simp only [hh.nearest_iff hs]
    rcases h.assign_cases s x v with ⟨⟨e, heq⟩, hnone⟩ | ⟨t, w, hvar, heq⟩ <;> rw [heq]
    · constructor
      · rintro ⟨⟩
      · rintro ⟨t, w, hvar⟩
        exact (hnone t w hvar.symm).elim
    · exact ⟨fun _ => ⟨t, w, hvar.symm⟩, fun _ => rfl⟩
  assign_lookup s x v t₀ w hs hn t y ht := by
    have hforest := hh.assigned hs x v
    obtain ⟨ht₀, hb⟩ := binding?_of_nearest hn
    rw [hh.nearest_iff hs] at hn
    rcases h.assign_cases s x v with ⟨-, hnone⟩ | ⟨t₁, w₁, hvar, heq⟩
    · exact (hnone t₀ w hn.symm).elim
    · cases hn.trans hvar
      rw [heq] at hforest ⊢
      have hsame : (∃ b, h.Nearest t x (some (t₀, b))) ↔ h.Meets x t₀ t := by
        rw [meets_iff_nearest ht₀ hb]
        refine ⟨?_, fun hn => ⟨_, hn⟩⟩
        rintro ⟨b, hn⟩
        cases hb.symm.trans (binding?_of_nearest hn).2
        exact hn
      rw [hsame]
      exact lookup_bind hforest hh ht₀ (mayBind_variable hb) ht y
  assign_names s x v t kind y := by
    rcases h.assign_cases s x v with ⟨⟨e, heq⟩, -⟩ | ⟨t₀, w, hvar, heq⟩ <;> rw [heq]
    have hw := bound?_of_binding? (mem_of_holderIn hvar).2
    rw [bound?_bind (lt_of_bound? hw)]
    split
    · next hsame =>
      obtain ⟨rfl, rfl, rfl⟩ := hsame
      rw [hw]
      rfl
    · rfl
  declare_binding kind s x v t kind' y hne := by
    rcases h.declare_cases kind s x v with ⟨e, heq⟩ | ⟨heq, -⟩ <;> rw [heq]
    refine bound?_bind_elsewhere ?_ _ kind'
    rintro ⟨rfl, rfl⟩
    exact hne ⟨rfl, rfl⟩
  declare_lookup kind s x v hs hok t y ht := by
    have hforest := hh.declared hs kind x v
    rcases h.declare_cases kind s x v with ⟨e, heq⟩ | ⟨heq, hbefore⟩ <;> rw [heq] at hok hforest ⊢
    · cases hok
    · exact lookup_bind hforest hh hs hbefore ht y
  declare_refused kind s x v e he t y := by
    rcases h.declare_cases kind s x v with ⟨e', heq⟩ | ⟨heq, -⟩ <;> rw [heq] at he ⊢
    cases he
  assign_refused s x v e he t y := by
    rcases h.assign_cases s x v with ⟨⟨e', heq⟩, -⟩ | ⟨t₀, w, -, heq⟩ <;> rw [heq] at he ⊢
    cases he

/-! ## A constant that hides a variable

The variable is declared in the outermost scope and the constant in a scope inside of it,
so that the variable is hidden from the scope inside of that one, but not from a fourth. -/

/-- The four scopes. -/
def shadowing : Heap :=
  let outermost : Heap := (addScope ⟨#[], #[]⟩ (.empty none)).2
  let constant := ((outermost.declare .var 0 "x" (.int 1)).2.enclose 0).2
  (((constant.declare .val 1 "x" (.int 2)).2.enclose 1).2.enclose 0).2

theorem shadowing_isForest : shadowing.IsForest := by
  have houtermost : IsForest (α := Unit) (addScope ⟨#[], #[]⟩ (.empty none)).2 :=
    .alone (.start #[])
  refine .enclosed (.enclosed (.declared (.enclosed (.declared houtermost ?_ .var "x" (.int 1))
    ?_) ?_ .val "x" (.int 2)) ?_) ?_
  all_goals decide

/-- What is assigned from the fourth scope is seen in the outermost one, and not where the
constant is met first. -/
theorem shadowing_lexically_scoped :
    shadowing.IsForest ∧
    (shadowing.assign 3 "x" (.int 5)).2.lookup 0 "x" = some (.int 5) ∧
    (shadowing.assign 3 "x" (.int 5)).2.lookup 2 "x" = some (.int 2) := by
  have hscoped := forests_lexically_scoped shadowing_isForest
  have hvar : shadowing.Nearest 3 "x" (some (0, ⟨.var, .int 1⟩)) :=
    .outward rfl rfl (.found (by decide) rfl)
  have hval : shadowing.Nearest 2 "x" (some (1, ⟨.val, .int 2⟩)) :=
    .outward rfl rfl (.found (by decide) rfl)
  have hassigned := hscoped.assign_lookup 3 "x" (.int 5) 0 (.int 1) (by decide) hvar
  refine ⟨shadowing_isForest, ?_, ?_⟩
  · exact (hassigned 0 "x" (by decide)).1 ⟨rfl, _, .found (by decide) rfl⟩
  · refine ((hassigned 2 "x" (by decide)).2 ?_).trans
      (hscoped.lookup 2 "x" _ (by decide) hval)
    rintro ⟨-, b, hb⟩
    cases hb.unique hval

end Heap

end MonkeyLang
