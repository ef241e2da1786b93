import MonkeyLang.Host.Memory
import MonkeyLang.Proofs.Run.Execution

/-!
# Objects last but for pops

A run makes new objects, and takes the last elements off arrays.  It does nothing
else to objects: an array only becomes shorter from the end, and a hash or a
function is never changed.
-/

namespace MonkeyLang

open RunOn

variable {α S : Type}

/-- The value that stands for an object at a place. -/
def Object.valueAt (id : ObjectId) : Object α → Value
  | .array _ => .array id
  | .hash _ => .hash id
  | .func _ => .func id

namespace Heap

variable {h h' : Heap α}

/-- The value stands for a new object, with which the first heap becomes the second.
It is the same as no value that there can be in the first. -/
structure Makes (h : Heap α) (o : Object α) (w : Value) (h' : Heap α) : Prop where
  heap : h' = (h.alloc o).2
  value : w = o.valueAt h.objects.size
  object : h'.objects[h.objects.size]? = some o
  fresh : ∀ v : Value, (∀ p ∈ v.nodes, ¬h.IsNew p) → w.same v = false ∧ v.same w = false

/-- The second heap is the first but for the last element of an array, which is
taken off.  It is gone through whatever the array is looked at. -/
structure Shortens (h : Heap α) (id : ObjectId) (v : Value) (h' : Heap α) : Prop where
  array : ∀ j, (Value.array j).same (.array id) = true →
    ∃ es, h.objects[j]? = some (.array (es ++ [v])) ∧ h'.objects[j]? = some (.array es)
  others : ∀ j, (Value.array j).same (.array id) = false → h'.objects[j]? = h.objects[j]?
  scopes : h'.scopes = h.scopes

/-- What becomes of the objects in a heap: an array is shortened from the end, and a
hash or a function is what it was. -/
structure ObjectsLast (h h' : Heap α) : Prop where
  array : ∀ (id : ObjectId) es, h.objects[id]? = some (.array es) →
    ∃ es', h'.objects[id]? = some (.array es') ∧ es' <+: es
  hash : ∀ (id : ObjectId) t, h.objects[id]? = some (.hash t) → h'.objects[id]? = some (.hash t)
  func : ∀ (id : ObjectId) f, h.objects[id]? = some (.func f) → h'.objects[id]? = some (.func f)

/-- The value of a new object is the same as no value that was there. -/
theorem same_valueAt_size (o : Object α) {v : Value} (hv : ∀ p ∈ v.nodes, ¬h.IsNew p) :
    (o.valueAt h.objects.size).same v = false ∧ v.same (o.valueAt h.objects.size) = false := by
  have hne : ∀ id, .object id ∈ v.nodes → h.objects.size ≠ id :=
    fun id hid heq => hv _ hid (Nat.le_of_eq heq)
  cases v with
  | array id | hash id | func id =>
      have hne := hne id List.mem_cons_self
      cases o <;> simp [Object.valueAt, Value.same, hne, hne.symm]
  | _ => cases o <;> exact ⟨rfl, rfl⟩

theorem makes_alloc (h : Heap α) (o : Object α) :
    h.Makes o (o.valueAt h.objects.size) (h.alloc o).2 where
  heap := rfl
  value := rfl
  object := by rw [alloc, Array.getElem?_push_size]
  fresh _ hv := same_valueAt_size o hv

/-- To take off the last element of an array is to pop. -/
theorem shortens_iff {id : ObjectId} {v : Value} :
    h.Shortens id v h' ↔ h.pop id = (some v, h') := by
  constructor
  · rintro ⟨harray, hothers, hscopes⟩
    obtain ⟨es, hbefore, hafter⟩ := harray id (beq_self_eq_true id)
    rcases h.pop_cases id with ⟨hempty, -⟩ | ⟨es', w, ho, hpop⟩
    · simp [elements, hbefore] at hempty
    · have heq : es ++ [v] = es' ++ [w] := by
        simpa using hbefore.symm.trans ho
      obtain ⟨rfl, rfl⟩ : es = es' ∧ v = w := by simpa using heq
      rw [hpop]
      have hobjects : h'.objects = h.objects.modify id withoutLast := by
        refine Array.ext_getElem? fun j => ?_
        by_cases hj : j = id
        · subst hj
          rw [hafter, getElem?_modify_withoutLast hbefore]
        · rw [hothers j (beq_false_of_ne hj), Array.getElem?_modify, if_neg (Ne.symm hj)]
      rw [← hobjects, ← hscopes]
  · intro hpop
    rcases h.pop_cases id with ⟨-, hsame⟩ | ⟨es, w, ho, hpop'⟩
    · cases hsame.symm.trans hpop
    · cases hpop'.symm.trans hpop
      refine ⟨fun j hj => ?_, fun j hj => ?_, rfl⟩
      · obtain rfl : j = id := eq_of_beq hj
        exact ⟨es, ho, getElem?_modify_withoutLast ho⟩
      · simp only [Array.getElem?_modify, if_neg (Ne.symm (ne_of_beq_false hj))]

end Heap

namespace Job

variable [Digest] [Host (StateM S)] {c : Job α S} {h h' : Heap α} {s s' : S} {id : ObjectId}
  {o : Object α}

/-- An object is what it was, or an array from the end of which something was
popped. -/
theorem Changes.object (hc : c.Changes h h') (ho : h.objects[id]? = some o) :
    h'.objects[id]? = some o ∨ (∃ h₁, c.Executes (.pop id) h₁) ∧
      ∃ es es', o = .array es ∧ h'.objects[id]? = some (.array es') ∧ es' <+: es := by
  induction hc with
  | refl => exact Or.inl ho
  | @tail h₁ h₂ _ hstep ih =>
      obtain ⟨op, hop, rfl⟩ := hstep
      rcases ih with hsame | ⟨hpops, es, es', rfl, harray, hprefix⟩
      · have hid := (Array.getElem?_eq_some_iff.mp hsame).1
        rcases Heap.getElem?_apply_cases hid op with heq | ⟨es, v, rfl, hbefore, hafter⟩
        · exact Or.inl (heq.trans hsame)
        · obtain rfl := Option.some.inj (hbefore.symm.trans hsame)
          exact Or.inr ⟨⟨h₁, hop⟩, es ++ [v], es, rfl, hafter, List.prefix_append es [v]⟩
      · have hid := (Array.getElem?_eq_some_iff.mp harray).1
        refine Or.inr ⟨hpops, es, ?_⟩
        rcases Heap.getElem?_apply_cases hid op with heq | ⟨es'', v, rfl, hbefore, hafter⟩
        · exact ⟨es', rfl, heq.trans harray, hprefix⟩
        · obtain ⟨rfl⟩ := Option.some.inj (hbefore.symm.trans harray)
          exact ⟨es'', rfl, hafter, (List.prefix_append es'' [v]).trans hprefix⟩

theorem objectsLast (c : Job α S) (n : Nat) : c.heap.ObjectsLast (c.ending n).state where
  array id es ho := by
    rcases (c.changes n).object ho with hsame | ⟨-, es₁, es', ⟨⟩, harray, hprefix⟩
    · exact ⟨es, hsame, List.prefix_refl es⟩
    · exact ⟨es', harray, hprefix⟩
  hash id t ho := by
    rcases (c.changes n).object ho with hsame | ⟨-, es, es', ⟨⟩, -⟩
    exact hsame
  func id f ho := by
    rcases (c.changes n).object ho with hsame | ⟨-, es, es', ⟨⟩, -⟩
    exact hsame

/-! ## What makes objects -/

theorem ends_builtin_iff {b : Builtin} {args : List Value} {o : Except Interrupt Value} :
    Ends ⟨.apply (.builtin b) args, h, s⟩ o h' s' ↔
      (b.call args : RunOn (Heap α) (StateM S) Value).ending h s = ⟨some o, h', s'⟩ := by
  constructor
  · intro hends
    obtain ⟨n, hn⟩ := hends.exists_succ
    exact hn
  · exact fun hcall => .of_ending (n := 1) hcall

theorem ends_func_iff {scope : ScopeId} {t : α} {params : List (Ident α)} {body : Block α}
    {w : Value} :
    Ends ⟨.expr scope (.func t params body), h, s⟩ (.ok w) h' s' ↔
      h.Makes (.func ⟨params, body, scope⟩) w h' ∧ s' = s := by
  constructor
  · intro hends
    obtain ⟨n, hn⟩ := hends.exists_succ
    cases hn
    exact ⟨h.makes_alloc _, rfl⟩
  · rintro ⟨⟨rfl, rfl, -, -⟩, rfl⟩
    exact .of_ending (n := 1) rfl

theorem ends_array_iff {scope : ScopeId} {t : α} {es : List (Expr α)} {w : Value} :
    Ends ⟨.expr scope (.array t es), h, s⟩ (.ok w) h' s' ↔
      ∃ vs h₁, Ends ⟨.exprs scope es, h, s⟩ (.ok vs) h₁ s' ∧ h₁.Makes (.array vs) w h' := by
  constructor
  · intro hends
    obtain ⟨n, hn⟩ := hends.exists_succ
    obtain ⟨vs, h₁, s₁, hes, hmake⟩ := ending_bind_eq_ok.mp hn
    cases hmake
    exact ⟨vs, h₁, .of_ending hes, h₁.makes_alloc _⟩
  · rintro ⟨vs, h₁, hes, rfl, rfl, -, -⟩
    obtain ⟨n, hn⟩ := hes.exists
    exact .of_ending (n := n + 1) (ending_bind_of_ok hn)

theorem ends_hash_iff {scope : ScopeId} {t : α} {ps : List (Expr α × Expr α)} {w : Value} :
    Ends ⟨.expr scope (.hash t ps), h, s⟩ (.ok w) h' s' ↔
      ∃ table h₁, Ends ⟨.pairs scope ps Table.empty, h, s⟩ (.ok table) h₁ s' ∧
        h₁.Makes (.hash table) w h' := by
  constructor
  · intro hends
    obtain ⟨n, hn⟩ := hends.exists_succ
    obtain ⟨table, h₁, s₁, hps, hmake⟩ := ending_bind_eq_ok.mp hn
    cases hmake
    exact ⟨table, h₁, .of_ending hps, h₁.makes_alloc _⟩
  · rintro ⟨table, h₁, hps, rfl, rfl, -, -⟩
    obtain ⟨n, hn⟩ := hps.exists
    exact .of_ending (n := n + 1) (ending_bind_of_ok hn)

theorem ends_push_iff {args : List Value} {w : Value} :
    Ends ⟨.apply (.builtin .push) args, h, s⟩ (.ok w) h' s' ↔
      ∃ id v, args = [.array id, v] ∧ h.Makes (.array (h.elements id ++ [v])) w h' ∧ s' = s := by
  rw [ends_builtin_iff]
  constructor
  · intro hcall
    rcases args with _ | ⟨v, _ | ⟨x, _ | ⟨y, ys⟩⟩⟩
    · cases hcall
    · cases hcall
    · cases v with
      | array id =>
          cases hcall
          exact ⟨id, x, rfl, h.makes_alloc _, rfl⟩
      | _ => cases hcall
    · cases hcall
  · rintro ⟨id, v, rfl, ⟨rfl, rfl, -, -⟩, rfl⟩
    rfl

omit [Digest] [Host (StateM S)] in
theorem ending_popFrom (id : ObjectId) :
    (Builtin.popFrom (.array id) : RunOn (Heap α) (StateM S) Value).ending h s =
      ⟨some ((h.pop id).1.elim (.error (.error RuntimeError.popFromEmpty.message)) .ok),
        (h.pop id).2, s⟩ := by
  refine (ending_bind_of_ok (ending_change h s _)).trans ?_
  rcases h.pop_cases id with ⟨-, hpop⟩ | ⟨es, v, -, hpop⟩
  · simp only [Store.heap, hpop]
    rfl
  · simp only [Store.heap, hpop]
    rfl

theorem ends_pop_iff {args : List Value} {w : Value} :
    Ends ⟨.apply (.builtin .pop) args, h, s⟩ (.ok w) h' s' ↔
      ∃ id, args = [.array id] ∧ h.Shortens id w h' ∧ s' = s := by
  rw [ends_builtin_iff]
  constructor
  · intro hcall
    rcases args with _ | ⟨v, _ | ⟨x, xs⟩⟩
    · cases hcall
    · cases v with
      | array id =>
          rw [Builtin.call, ending_popFrom] at hcall
          rcases hpop : h.pop id with ⟨last, h₁⟩
          rw [hpop] at hcall
          cases last with
          | none => cases hcall
          | some v =>
              cases hcall
              exact ⟨id, rfl, Heap.shortens_iff.mpr hpop, rfl⟩
      | _ => cases hcall
    · cases hcall
  · rintro ⟨id, rfl, hshortens, rfl⟩
    rw [Builtin.call, ending_popFrom, Heap.shortens_iff.mp hshortens]
    rfl

theorem ends_rest_iff {args : List Value} {w : Value} :
    Ends ⟨.apply (.builtin .rest) args, h, s⟩ (.ok w) h' s' ↔
      ∃ id, args = [.array id] ∧ s' = s ∧
        (h.elements id = [] ∧ w = .null ∧ h' = h ∨
          ∃ v vs, h.elements id = v :: vs ∧ h.Makes (.array vs) w h') := by
  rw [ends_builtin_iff]
  constructor
  · intro hcall
    rcases args with _ | ⟨v, _ | ⟨x, xs⟩⟩
    · cases hcall
    · cases v with
      | array id =>
          rw [Builtin.call, ending_bind_of_ok (ending_elementsOf _ id)] at hcall
          cases hes : h.elements id with
          | nil =>
              rw [hes] at hcall
              cases hcall
              exact ⟨id, rfl, rfl, Or.inl ⟨hes, rfl, rfl⟩⟩
          | cons v vs =>
              rw [hes] at hcall
              cases hcall
              exact ⟨id, rfl, rfl, Or.inr ⟨v, vs, hes, h.makes_alloc _⟩⟩
      | _ => cases hcall
    · cases hcall
  · rintro ⟨id, rfl, rfl, ⟨hes, rfl, rfl⟩ | ⟨v, vs, hes, rfl, rfl, -, -⟩⟩
    · rw [Builtin.call, ending_bind_of_ok (ending_elementsOf _ id), hes]
      rfl
    · rw [Builtin.call, ending_bind_of_ok (ending_elementsOf _ id), hes]
      rfl

end Job

open Job in
/-- Arrays only ever become shorter from the end, and everything else lasts.

However a job ends, and also if it does not, all objects that were there when it
began have lasted, and those that were not popped are what they were.  To pop is
to take the last element off one array.  The literals of arrays, hashes and
functions, `push`, and `rest` of an array with elements make new objects. -/
theorem objects_last_but_for_pops [Digest] [Host (StateM S)] :
    (∀ (c : Job α S) n, c.heap.ObjectsLast (c.ending n).state) ∧
    (∀ (c : Job α S) n (id : ObjectId) o, c.heap.objects[id]? = some o →
      (∀ h, ¬c.Executes (.pop id) h) → (c.ending n).state.objects[id]? = some o) ∧
    (∀ args (h h' : Heap α) (s s' : S) w,
      Ends ⟨.apply (.builtin .pop) args, h, s⟩ (.ok w) h' s' ↔
        ∃ id, args = [.array id] ∧ h.Shortens id w h' ∧ s' = s) ∧
    (∀ scope t es (h h' : Heap α) (s s' : S) w,
      Ends ⟨.expr scope (.array t es), h, s⟩ (.ok w) h' s' ↔
        ∃ vs h₁, Ends ⟨.exprs scope es, h, s⟩ (.ok vs) h₁ s' ∧ h₁.Makes (.array vs) w h') ∧
    (∀ scope t ps (h h' : Heap α) (s s' : S) w,
      Ends ⟨.expr scope (.hash t ps), h, s⟩ (.ok w) h' s' ↔
        ∃ table h₁, Ends ⟨.pairs scope ps Table.empty, h, s⟩ (.ok table) h₁ s' ∧
          h₁.Makes (.hash table) w h') ∧
    (∀ scope t params body (h h' : Heap α) (s s' : S) w,
      Ends ⟨.expr scope (.func t params body), h, s⟩ (.ok w) h' s' ↔
        h.Makes (.func ⟨params, body, scope⟩) w h' ∧ s' = s) ∧
    (∀ args (h h' : Heap α) (s s' : S) w,
      Ends ⟨.apply (.builtin .push) args, h, s⟩ (.ok w) h' s' ↔
        ∃ id v, args = [.array id, v] ∧ h.Makes (.array (h.elements id ++ [v])) w h' ∧ s' = s) ∧
    ∀ args (h h' : Heap α) (s s' : S) w,
      Ends ⟨.apply (.builtin .rest) args, h, s⟩ (.ok w) h' s' ↔
        ∃ id, args = [.array id] ∧ s' = s ∧
          (h.elements id = [] ∧ w = .null ∧ h' = h ∨
            ∃ v vs, h.elements id = v :: vs ∧ h.Makes (.array vs) w h') := by
  refine ⟨fun c n => c.objectsLast n, fun c n id o ho hnot => ?_, ?_⟩
  · rcases (c.changes n).object ho with hsame | ⟨⟨h, hpop⟩, -⟩
    · exact hsame
    · exact (hnot h hpop).elim
  · exact ⟨fun _ _ _ _ _ _ => ends_pop_iff, fun _ _ _ _ _ _ _ _ => ends_array_iff,
      fun _ _ _ _ _ _ _ _ => ends_hash_iff, fun _ _ _ _ _ _ _ _ _ => ends_func_iff,
      fun _ _ _ _ _ _ => ends_push_iff, fun _ _ _ _ _ _ => ends_rest_iff⟩

/-- A heap with two arrays. -/
def twoArrays : Heap :=
  ⟨#[.array [.int 1, .int 2], .array [.int 3]], #[]⟩

/-- The last element of the first array is popped. -/
def popFirst : Job Unit Memory :=
  ⟨.apply (.builtin .pop) [.array 0], twoArrays, Memory.start [] ∅⟩

/-- The first array is shortened by 2, and the second is what it was. -/
theorem twoArrays_last :
    popFirst.Ends (.ok (.int 2)) ⟨#[.array [.int 1], .array [.int 3]], #[]⟩
        (Memory.start [] ∅) ∧
      ∀ n, (popFirst.ending n).state.objects[1]? = some (.array [.int 3]) := by
  obtain ⟨-, hlast, hpop, -⟩ := objects_last_but_for_pops (α := Unit) (S := Memory)
  constructor
  · refine (hpop _ _ _ _ _ _).mpr ⟨0, rfl, ⟨fun j hj => ?_, fun j hj => ?_, rfl⟩, rfl⟩
    · obtain rfl : j = 0 := eq_of_beq hj
      exact ⟨[.int 1], rfl, rfl⟩
    · cases j with
      | zero => cases hj
      | succ j =>
          cases j with
          | zero => rfl
          | succ j => rfl
  · intro n
    refine hlast popFirst n 1 _ rfl ?_
    rintro h ⟨d, hcomes, hpops⟩
    -- A builtin function comes to nothing but itself.
    rcases Relation.ReflTransGen.cases_head hcomes with rfl | ⟨b, hturns | henters, -⟩
    · cases hpops
    · cases hturns
    · cases henters

end MonkeyLang
