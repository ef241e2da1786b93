import MonkeyLang.Proofs.Run.Age
import MonkeyLang.Proofs.Run.Region

/-!
# What cannot be reached is left alone

An evaluation begins with a scope, or with a function and its arguments.  What can
be reached from there, and what is made later, is a region, and the evaluation
stays in it.  So an object or a scope that cannot be reached is left as it is, and
nothing is come to but what could be reached before or is new.

A variable in the scope of a closure, if there is no other way to this scope, is
thus changed by nothing that cannot reach the closure.
-/

namespace MonkeyLang

open RunOn

variable {α S : Type}

namespace Task

/-- The nodes that a task begins with. -/
def nodes (t : Task α) : List Node :=
  t.scopes.map .scope ++ t.values.flatMap Value.nodes

/-- The nodes that a task ends with: those of its values, or those of a value that is
returned. -/
def found (t : Task α) : Option (Except Interrupt t.Result) → List Node
  | some (.ok r) => (t.yielded r).flatMap Value.nodes
  | some (.error (.ret v)) => v.nodes
  | _ => []

theorem forall_mem_nodes {t : Task α} {R : Node → Prop} (ht : ∀ q ∈ t.nodes, R q) :
    (∀ s ∈ t.scopes, R (.scope s)) ∧ ∀ v ∈ t.values, ∀ q ∈ v.nodes, R q := by
  constructor
  · intro s hs
    exact ht _ (List.mem_append_left _ (List.mem_map_of_mem hs))
  · intro v hv q hq
    exact ht q (List.mem_append_right _ (List.mem_flatMap.mpr ⟨v, hv, hq⟩))

theorem forall_mem_found {t : Task α} {o : Option (Except Interrupt t.Result)} {R : Node → Prop}
    (hok : ∀ r, o = some (.ok r) → ∀ v ∈ t.yielded r, ∀ q ∈ v.nodes, R q)
    (hreturned : ∀ v, o = some (.error (.ret v)) → ∀ q ∈ v.nodes, R q) :
    ∀ q ∈ t.found o, R q := by
  intro q hq
  match o with
  | some (.ok r) =>
      obtain ⟨v, hv, hq⟩ := List.mem_flatMap.mp hq
      exact hok r rfl v hv q hq
  | some (.error (.ret v)) => exact hreturned v rfl q hq
  | some (.error (.error _)) | some (.error (.exit _)) | none => exact (List.not_mem_nil hq).elim

end Task

namespace Heap

/-- The nodes that can be reached from some nodes, and those that are made later. -/
def Accessible (h : Heap α) (roots : List Node) (q : Node) : Prop :=
  h.Reaches roots q ∨ h.IsNew q

/-- A node can be reached without going through `f`. -/
def ReachesWithout (h : Heap α) (f : Node) (roots : List Node) (q : Node) : Prop :=
  ∃ p ∈ roots, p ≠ f ∧ Relation.ReflTransGen (fun p q => q ∈ h.links p ∧ q ≠ f) p q

variable {h : Heap α} {roots : List Node} {p q : Node}

theorem accessible_encloses (h : Heap α) (roots : List Node) :
    h.Encloses (fun _ => True) (h.Accessible roots) := by
  refine ⟨fun q hq => Or.inr hq, fun _ _ _ _ => trivial, fun q hq r hr => ?_⟩
  rcases hq with hreach | hnew
  · exact Or.inl (hreach.link hr)
  · rw [hnew.links_eq] at hr
    cases hr

/-- A way to a node goes through `f`, or it does not. -/
theorem Reaches.without_or (hq : h.Reaches roots q) (f : Node) :
    h.ReachesWithout f roots q ∨ h.Reaches roots f := by
  refine hq.induction (R := fun q => h.ReachesWithout f roots q ∨ h.Reaches roots f) ?_ ?_
  · intro p hp
    by_cases hpf : p = f
    · exact Or.inr (hpf ▸ reaches_root hp)
    · exact Or.inl ⟨p, hp, hpf, .refl⟩
  · rintro p (⟨r, hr, hrf, hpath⟩ | hf) q hq
    · by_cases hqf : q = f
      · have hp : h.Reaches roots p := 
          ⟨r, hr, Relation.ReflTransGen.mono (fun _ _ hlink => hlink.1) r p hpath⟩
        exact Or.inr (hqf ▸ hp.link hq)
      · exact Or.inl ⟨r, hr, hrf, hpath.tail ⟨hq, hqf⟩⟩
    · exact Or.inr hf

/-- A link goes to what is held, or to the scope that a function belongs to, or to the
scope around a scope. -/
theorem mem_links_cases (hq : q ∈ h.links p) :
    (∃ v ∈ h.values p, q ∈ v.nodes) ∨
      (∃ id f, p = .object id ∧ h.closure? id = some f ∧ q = .scope f.scope) ∨
        ∃ s o, p = .scope s ∧ h.outer? s = some o ∧ q = .scope o := by
  cases p with
  | object id =>
      rw [links] at hq
      cases ho : h.objects[id]? with
      | none =>
          rw [ho] at hq
          cases hq
      | some o =>
          rw [ho] at hq
          rcases List.mem_append.mp hq with hq | hq
          · obtain ⟨v, hv, hq⟩ := List.mem_flatMap.mp hq
            exact Or.inl ⟨v, mem_values_object.mpr ⟨o, ho, hv⟩, hq⟩
          · cases o with
            | func f =>
                refine Or.inr (Or.inl ⟨id, f, rfl, closure?_eq_some.mpr ho, ?_⟩)
                exact List.mem_singleton.mp hq
            | array | hash => cases hq
  | scope s =>
      rw [links] at hq
      cases hs : h.scopes[s]? with
      | none =>
          rw [hs] at hq
          cases hq
      | some scope =>
          rw [hs] at hq
          rcases List.mem_append.mp hq with hq | hq
          · obtain ⟨v, hv, hq⟩ := List.mem_flatMap.mp hq
            exact Or.inl ⟨v, mem_values_scope.mpr ⟨scope, hs, hv⟩, hq⟩
          · obtain ⟨o, ho, rfl⟩ := List.mem_map.mp hq
            refine Or.inr (Or.inr ⟨s, o, rfl, ?_, rfl⟩)
            rw [outer?, hs]
            exact Option.mem_toList.mp ho

theorem not_isNew_of_mem_nodes {v : Value} (hv : v.StandsIn h) (hq : q ∈ v.nodes) :
    ¬h.IsNew q := by
  obtain ⟨id, rfl⟩ := Value.object_of_mem_nodes hq
  exact Nat.not_le_of_lt (hv.lt_of_mem_nodes hq)

/-- In an aged heap, what can be reached from what is there is there. -/
theorem Aged.not_isNew (hh : h.Aged) (hroots : ∀ p ∈ roots, ¬h.IsNew p)
    (hq : h.Reaches roots q) : ¬h.IsNew q := by
  refine hq.induction hroots fun p hp q hq => ?_
  rcases mem_links_cases hq with ⟨v, hv, hq⟩ | ⟨id, f, rfl, hf, rfl⟩ | ⟨s, o, rfl, ho, rfl⟩
  · exact not_isNew_of_mem_nodes (hh.values p v hv) hq
  · exact Nat.not_le_of_lt (hh.captured id f hf)
  · exact Nat.not_le_of_lt (Nat.lt_trans (hh.outer s o ho) (Nat.lt_of_not_le hp))

end Heap

namespace Job

variable [Digest] [Host (StateM S)]

/-- An ending of a job that leaves alone what the job could not reach. -/
structure Encapsulated (c : Job α S) (e : Ending (Heap α) S c.task.Result) : Prop where
  /-- An object that was there and could not be reached is what it was. -/
  object : ∀ id, id < c.heap.objects.size → ¬c.heap.Reaches c.task.nodes (.object id) →
    e.state.objects[id]? = c.heap.objects[id]?
  /-- A scope that was there and could not be reached is what it was. -/
  scope : ∀ s, s < c.heap.scopes.size → ¬c.heap.Reaches c.task.nodes (.scope s) →
    e.state.scopes[s]? = c.heap.scopes[s]?
  /-- What can be reached afterwards, from where the job began or from what it came
  to, could be reached before or is new. -/
  reached : ∀ q, e.state.Reaches (c.task.nodes ++ c.task.found e.outcome) q →
    c.heap.Reaches c.task.nodes q ∨ c.heap.IsNew q
  /-- If the job began with what was in the heap, all this is in the heap that it
  leaves. -/
  present : c.Stands → ∀ q, e.state.Reaches (c.task.nodes ++ c.task.found e.outcome) q →
    ¬e.state.IsNew q
  /-- If the only ways to a scope went through an object, such as a closure, then the
  object could be reached if a variable in the scope is not what it was. -/
  private_variable : ∀ f s x, s < c.heap.scopes.size →
    ¬c.heap.ReachesWithout (.object f) c.task.nodes (.scope s) →
      e.state.binding? s x ≠ c.heap.binding? s x → c.heap.Reaches c.task.nodes (.object f)

/-- The region that a job stays in. -/
theorem runs_accessible (c : Job α S) (n : Nat) :
    Policy.Keeps (Policy.region (fun _ => True) (c.heap.Accessible c.task.nodes)) c.heap
      (fun _ r => ∀ v ∈ c.task.yielded r,
        v.Fits (fun _ => True) (c.heap.Accessible c.task.nodes))
      (fun _ v => v.Fits (fun _ => True) (c.heap.Accessible c.task.nodes)) (c.ending n) := by
  have hV : Value.Inherited fun _ => True :=
    ⟨fun _ _ => trivial, fun _ => trivial, fun _ => trivial, fun _ => trivial, fun _ _ => trivial⟩
  have hnodes : ∀ q ∈ c.task.nodes, c.heap.Accessible c.task.nodes q :=
    fun q hq => Or.inl (Heap.reaches_root hq)
  obtain ⟨hscopes, hvalues⟩ := Task.forall_mem_nodes hnodes
  refine Policy.runs_task (Policy.region_sound hV) (fun _ m => ?_)
    (c.heap.accessible_encloses c.task.nodes) hscopes (fun v hv => ?_) n c.host
  · exact ⟨trivial, fun q hq => (List.not_mem_nil hq).elim⟩
  · exact ⟨trivial, hvalues v hv⟩

omit [Digest] [Host (StateM S)] in
theorem Stands.not_isNew {c : Job α S} (hc : c.Stands) {q : Node} (hq : q ∈ c.task.nodes) :
    ¬c.heap.IsNew q := by
  rcases List.mem_append.mp hq with hq | hq
  · obtain ⟨s, hs, rfl⟩ := List.mem_map.mp hq
    exact Nat.not_le_of_lt (hc.task.scopes s hs)
  · obtain ⟨v, hv, hq⟩ := List.mem_flatMap.mp hq
    exact Heap.not_isNew_of_mem_nodes (hc.task.values v hv) hq

/-- What a job comes to is there, if what it began with was. -/
theorem Stands.present {c : Job α S} (hc : c.Stands) (n : Nat) {q : Node}
    (hq : (c.ending n).state.Reaches (c.task.nodes ++ c.task.found (c.ending n).outcome) q) :
    ¬(c.ending n).state.IsNew q := by
  have hkeeps := hc.keeps n
  refine hkeeps.holds.not_isNew (fun p hp => ?_) hq
  rcases List.mem_append.mp hp with hp | hp
  · exact fun hnew => hc.not_isNew hp (hkeeps.leads.isNew hnew)
  · refine Task.forall_mem_found (R := fun q => ¬(c.ending n).state.IsNew q) ?_ ?_ p hp
    · exact fun r hr v hv q => Heap.not_isNew_of_mem_nodes (hkeeps.value r hr v hv)
    · exact fun v hv q => Heap.not_isNew_of_mem_nodes (hkeeps.returned v hv)

end Job

open Job in
/-- What cannot be reached is left alone.

However a job ends, and also if it does not: an object or a scope that was there
when it began and could not be reached is what it was, and nothing can be reached
afterwards but what could be reached before or is new.  So a variable in the scope
of a closure, to which there is no other way, is changed by nothing that cannot
reach the closure. -/
theorem unreachable_left_alone [Digest] [Host (StateM S)] (c : Job α S) (n : Nat) :
    c.Encapsulated (c.ending n) := by
  have hkeeps := c.runs_accessible n
  have houtside : ∀ {q}, ¬c.heap.IsNew q → ¬c.heap.Reaches c.task.nodes q →
      ¬c.heap.Accessible c.task.nodes q := fun hold hnot => not_or.mpr ⟨hnot, hold⟩
  have hscope : ∀ s, s < c.heap.scopes.size → ¬c.heap.Reaches c.task.nodes (.scope s) →
      (c.ending n).state.scopes[s]? = c.heap.scopes[s]? := fun s hs hnot =>
    hkeeps.leads.scopes s (houtside (Nat.not_le_of_lt hs) hnot)
  constructor
  case object =>
    exact fun id hid hnot => hkeeps.leads.objects id (houtside (Nat.not_le_of_lt hid) hnot)
  case scope => exact hscope
  case reached =>
    intro q hq
    refine hq.induction (fun p hp => ?_) hkeeps.holds.links
    rcases List.mem_append.mp hp with hp | hp
    · exact Or.inl (Heap.reaches_root hp)
    · refine Task.forall_mem_found ?_ ?_ p hp
      · exact fun r hr v hv => (hkeeps.value r hr v hv).nodes
      · exact fun v hv => (hkeeps.returned v hv).nodes
  case present => exact fun hc q => hc.present n
  case private_variable =>
    intro f s x hs hprivate hchanged
    -- The scope has been reached, but not without going through the object.
    have hreached : c.heap.Reaches c.task.nodes (.scope s) := by
      by_contra hnot
      exact hchanged (Heap.binding?_congr (hscope s hs hnot) x)
    exact (hreached.without_or (.object f)).resolve_left hprivate

/-- A function that assigns to a variable in its own scope. -/
def counting : Closure :=
  ⟨[], .mk () [.expr () (.assign () ⟨(), "count"⟩ (.int () 7))], 1⟩

/-- A heap in which the function is bound in one scope, belongs to a second inside of
it, and is out of reach of a third. -/
def beforeCounting : Heap :=
  ⟨#[.func counting], #[⟨Assoc.empty, Assoc.ofList [("tick", .func 0)], none⟩,
    ⟨Assoc.ofList [("count", .int 0)], Assoc.empty, some 0⟩, .empty none]⟩

/-- The function is called from the first scope. -/
def countOnce : Job Unit Memory :=
  ⟨.expr 0 (.call () (.ident ⟨(), "tick"⟩) []), beforeCounting, Memory.start [] ∅⟩

/-- No program that is run in the third scope changes the variable.  The call from
the first does, and the function can be reached from there. -/
theorem counting_left_alone :
    (∀ (p : Program Unit) n,
      (Job.ending ⟨.program 2 p, beforeCounting, Memory.start [] ∅⟩ n).state.binding? 1 "count" =
        some ⟨.var, .int 0⟩) ∧
    (countOnce.ending 8).state.binding? 1 "count" = some ⟨.var, .int 7⟩ ∧
    beforeCounting.Reaches [.scope 0] (.object 0) := by
  refine ⟨fun p n => ?_, rfl, ?_⟩
  · have halone :=
      unreachable_left_alone ⟨.program 2 p, beforeCounting, Memory.start [] ∅⟩ n
    have hout : ∀ q, beforeCounting.Reaches [.scope 2] q → q = .scope 2 := by
      intro q hq
      refine hq.induction (R := fun q => q = .scope 2) (fun p hp => List.mem_singleton.mp hp) ?_
      rintro _ rfl q hq
      exact (List.not_mem_nil hq).elim
    have hsame := halone.scope 1 (show 1 < 3 by decide) fun hreach => by cases hout _ hreach
    exact Heap.binding?_congr hsame "count"
  · refine (unreachable_left_alone countOnce 8).private_variable 0 1 "count" (by decide) ?_ ?_
    · rintro ⟨p, hp, -, hpath⟩
      have hout : ∀ q, Relation.ReflTransGen
          (fun p q => q ∈ beforeCounting.links p ∧ q ≠ .object 0) p q → q = .scope 0 := by
        intro q hq
        induction hq with
        | refl => exact List.mem_singleton.mp hp
        | tail _ hlink ih =>
            subst ih
            exact (hlink.2 (List.mem_singleton.mp hlink.1)).elim
      cases hout _ hpath
    · have hafter : (countOnce.ending 8).state.binding? 1 "count" = some ⟨.var, .int 7⟩ := rfl
      rw [hafter]
      decide

end MonkeyLang
