import MonkeyLang.Proofs.Run.History
import MonkeyLang.Proofs.Run.Hygiene
import MonkeyLang.Proofs.Store.Search

/-!
# Heaps do not become cyclic

A run that begins with what is in an aged heap comes upon nothing but what is in
the heap, and leaves an aged heap.  So names can be searched for and values can
be shown wherever a run may have come to.
-/

namespace MonkeyLang

variable {α σ S : Type}

/-! ## What a task begins with and comes to -/

namespace Task

/-- The scopes that a task begins with. -/
def scopes (t : Task α) : List ScopeId :=
  t.scope?.toList

/-- The values that a task begins with, those of keys apart. -/
def values : Task α → List Value
  | expr _ _ | exprs _ _ | stmt _ _ | program _ _ => []
  | pairs _ _ sofar => sofar.pairs.map (·.2)
  | stmts _ _ sofar | loop _ _ _ sofar => [sofar]
  | apply callee args => callee :: args

/-- The values that a task comes to, those of keys apart. -/
def yielded : (t : Task α) → t.Result → List Value
  | exprs _ _, vs => vs
  | pairs _ _ _, table => table.pairs.map (·.2)
  | expr _ _, v | stmt _ _, v | stmts _ _ _, v | loop _ _ _ _, v | apply _ _, v
  | program _ _, v => [v]

/-- What a task begins with is in the heap. -/
structure StandsIn (t : Task α) (h : Heap α) : Prop where
  scopes : ∀ s ∈ t.scopes, s < h.scopes.size
  values : ∀ v ∈ t.values, v.StandsIn h

end Task

namespace Policy

/-- Every task keeps to a sound policy that all errors are fit for, if what the task
begins with is. -/
theorem runs_task [Store α σ] [Digest] [Host (StateM S)] {P : Policy σ} (hP : P.Sound)
    (herror : ∀ st m, P.Fit st (.error m)) {st : σ} (hst : P.Holds st) {t : Task α}
    (hscopes : ∀ s ∈ t.scopes, P.Within st s) (hvalues : ∀ v ∈ t.values, P.Fit st v) (n : Nat) :
    P.Runs (S := S) st (t.run n) (fun st' r => ∀ v ∈ t.yielded r, P.Fit st' v) P.Fit := by
  have hkept := keptUpTo (S := S) hP n
  have hone : ∀ st' v, P.Fit st' v → ∀ w ∈ [v], P.Fit st' w := fun st' v hv w hw =>
    List.mem_singleton.mp hw ▸ hv
  have hmembers : ∀ st' (table : Table), (∀ p ∈ table.pairs, P.Fit st' p.2) →
      ∀ w ∈ table.pairs.map (·.2), P.Fit st' w := by
    intro st' table htable w hw
    obtain ⟨p, hp, rfl⟩ := List.mem_map.mp hw
    exact htable p hp
  cases t with
  | expr scope e =>
      exact (hkept.expr e hst (hscopes scope List.mem_cons_self)).mono hone fun _ _ h => h
  | exprs scope es => exact hkept.exprs es hst (hscopes scope List.mem_cons_self)
  | pairs scope ps sofar =>
      refine (hkept.pairs ps hst (hscopes scope List.mem_cons_self) fun p hp => ?_).mono
        hmembers fun _ _ h => h
      exact hvalues p.2 (List.mem_map_of_mem hp)
  | stmt scope x =>
      exact (hkept.stmt x hst (hscopes scope List.mem_cons_self)).mono hone fun _ _ h => h
  | stmts scope xs sofar =>
      have hsofar := hvalues sofar List.mem_cons_self
      exact (hkept.stmts xs hst (hscopes scope List.mem_cons_self) hsofar).mono hone
        fun _ _ h => h
  | loop scope c body sofar =>
      have hsofar := hvalues sofar List.mem_cons_self
      exact (hkept.loop c body hst (hscopes scope List.mem_cons_self) hsofar).mono hone
        fun _ _ h => h
  | apply callee args =>
      have hcallee := hvalues callee List.mem_cons_self
      have hargs : ∀ v ∈ args, P.Fit st v := fun v hv => hvalues v (List.mem_cons_of_mem _ hv)
      exact (hkept.apply hst hcallee hargs).mono hone fun _ _ h => h.elim
  | program scope p =>
      refine (runs_program hP hst (hscopes scope List.mem_cons_self) n p).mono ?_
        fun _ _ h => h.elim
      rintro st' _ (⟨m, rfl⟩ | hv)
      · exact hone st' _ (herror st' m)
      · exact hone st' _ hv

/-! ## The policy of age -/

/-- A run in an aged heap comes upon what is in the heap. -/
def aged : Policy (Heap α) where
  Holds := Heap.Aged
  Leads := Heap.GrowsTo
  Fit h v := v.StandsIn h
  Within h s := s < h.scopes.size

variable {h : Heap α} {β : Type}

/-- An operation on what is in the heap is admitted. -/
theorem aged_admits (hh : h.Aged) (op : Operation α) (hop : op.StandsIn h) {r : β × Heap α}
    (hr : r.2 = op.apply h) {Q : Heap α → β → Prop} (hQ : Q r.2 r.1) : aged.Admits h r Q := by
  refine ⟨?_, ?_, hQ⟩
  · change r.2.Aged
    rw [hr]
    exact hh.apply hop
  · change h.GrowsTo r.2
    rw [hr]
    exact Heap.growsTo_apply h op

theorem kind?_alloc (h : Heap α) (o : Object α) :
    (h.alloc o).2.kind? (h.alloc o).1 = some o.kind := by
  simp only [Heap.alloc, Heap.kind?, Array.getElem?_push_size, Option.map_some]

theorem aged_sound : (aged : Policy (Heap α)).Sound where
  refl := Heap.GrowsTo.refl
  trans := Heap.GrowsTo.trans
  fit_mono hh' hv := hv.mono hh'
  within_mono hh' hs := Nat.lt_of_lt_of_le hs hh'.scopes
  atom {h v} hv := by
    cases v with
    | ret | error | func | array | hash => exact hv.elim
    | _ => trivial
  ret hv := hv
  lookup hh _ hfound := by
    obtain ⟨⟨t, b⟩, hholder, rfl⟩ := Option.map_eq_some_iff.mp hfound
    exact hh.values _ _ (Heap.mem_values_of_binding? (Heap.mem_of_holderIn hholder).2)
  element hh _ hv := hh.values _ _ (Heap.mem_values_of_elements hv)
  pair hh _ hp := hh.values _ _ (Heap.mem_values_of_table hp)
  array {h es} hh hes := by
    refine aged_admits hh (.alloc (.array es)) ⟨hes, ?_⟩ rfl (kind?_alloc h _)
    exact fun s hs => (List.not_mem_nil hs).elim
  hash {h t} hh ht := by
    refine aged_admits hh (.alloc (.hash t)) ⟨fun v hv => ?_, ?_⟩ rfl (kind?_alloc h _)
    · obtain ⟨p, hp, hv⟩ := List.mem_flatMap.mp hv
      rcases List.mem_cons.mp hv with rfl | hv
      · cases p.1 <;> trivial
      · rw [List.mem_singleton.mp hv]
        exact ht p hp
    · exact fun s hs => (List.not_mem_nil hs).elim
  func {h scope} idents body hh hs := by
    refine aged_admits hh (.alloc (.func ⟨idents, body, scope⟩)) ⟨?_, ?_⟩ rfl
      (kind?_alloc h _)
    · exact fun v hv => (List.not_mem_nil hv).elim
    · exact fun s hs' => List.mem_singleton.mp hs' ▸ hs
  pop {h id} hh _ := by
    refine aged_admits hh (.pop id) ⟨?_, ?_⟩ rfl fun v hv => ?_
    · exact fun v hv => (List.not_mem_nil hv).elim
    · exact fun s hs => (List.not_mem_nil hs).elim
    · refine Value.StandsIn.mono (Heap.growsTo_apply h (.pop id)) ?_
      rcases h.pop_cases id with ⟨-, hpop⟩ | ⟨es, w, ho, hpop⟩
      · rw [hpop] at hv
        cases hv
      · rw [hpop] at hv
        cases hv
        refine hh.values (.object id) v (Heap.mem_values_object.mpr ⟨_, ho, ?_⟩)
        exact List.mem_append_right _ List.mem_cons_self
  declare {h scope v} kind x hh _ hv := by
    refine aged_admits hh (.declare kind scope x v) ⟨?_, ?_⟩ rfl trivial
    · exact fun w hw => List.mem_singleton.mp hw ▸ hv
    · exact fun s hs => (List.not_mem_nil hs).elim
  assign {h scope v} x hh _ hv := by
    refine aged_admits hh (.assign scope x v) ⟨?_, ?_⟩ rfl trivial
    · exact fun w hw => List.mem_singleton.mp hw ▸ hv
    · exact fun s hs => (List.not_mem_nil hs).elim
  enter {h id f args} hh _ hf hargs := by
    refine aged_admits hh (.enter f.scope f.params args) ⟨hargs, ?_⟩ rfl ?_
    · exact fun s hs => List.mem_singleton.mp hs ▸ hh.captured id f hf
    · simp [aged, Heap.enter_eq, Heap.addScope]

end Policy

/-! ## The midst of a run -/

namespace Job

/-- A job begins in an aged heap, with what is in it. -/
structure Stands (c : Job α S) : Prop where
  heap : c.heap.Aged
  task : c.task.StandsIn c.heap

/-- An aged heap that has grown from another, and values in it. -/
structure Extends (h h' : Heap α) (vs : List Value) : Prop where
  aged : h'.Aged
  grows : h.GrowsTo h'
  values : ∀ v ∈ vs, v.StandsIn h'

theorem Extends.refl {h : Heap α} (hh : h.Aged) : Extends h h [] :=
  ⟨hh, .refl h, fun _ hv => (List.not_mem_nil hv).elim⟩

theorem Extends.trans {h h' h'' : Heap α} {vs ws : List Value} (hh' : Extends h h' vs)
    (hh'' : Extends h' h'' ws) : Extends h h'' (vs ++ ws) := by
  refine ⟨hh''.aged, hh'.grows.trans hh''.grows, fun v hv => ?_⟩
  rcases List.mem_append.mp hv with hv | hv
  · exact (hh'.values v hv).mono hh''.grows
  · exact hh''.values v hv

section

variable {c d : Job α S}

/-- A job in the same scope stands in a heap that has grown. -/
theorem Stands.later (hc : c.Stands) {vs : List Value} (hd : Extends c.heap d.heap vs)
    (hscope : ∀ scope, d.task.scope? = some scope → c.task.scope? = some scope)
    (hvalues : ∀ v ∈ d.task.values, v ∈ vs ∨ v = .null) : d.Stands where
  heap := hd.aged
  task.scopes s hs := by
    refine Nat.lt_of_lt_of_le (hc.task.scopes s ?_) hd.grows.scopes
    exact Option.mem_toList.mpr (hscope s (Option.mem_toList.mp hs))
  task.values v hv := by
    rcases hvalues v hv with hmem | rfl
    · exact hd.values v hmem
    · trivial

end

variable [Digest] [Host (StateM S)] {c d : Job α S}

/-- However it ends, a job that stands leaves an aged heap, with what it comes to in
it. -/
theorem Stands.keeps (hc : c.Stands) (n : Nat) :
    Policy.aged.Keeps c.heap (fun h r => ∀ v ∈ c.task.yielded r, v.StandsIn h)
      (fun h v => v.StandsIn h) (c.ending n) :=
  Policy.runs_task Policy.aged_sound (fun _ _ => trivial) hc.heap hc.task.scopes hc.task.values
    n c.host

theorem Stands.extends (hc : c.Stands) {r : c.task.Result} {h : Heap α} {s : S}
    (hends : c.Ends (.ok r) h s) : Extends c.heap h (c.task.yielded r) := by
  obtain ⟨n, hn⟩ := hends.exists_succ
  have hkeeps := hc.keeps (n + 1)
  rw [hn] at hkeeps
  exact ⟨hkeeps.holds, hkeeps.leads, hkeeps.value r rfl⟩

/-- What comes of a part that is evaluated first. -/
theorem Stands.extends_expr (hc : c.Stands) {scope : ScopeId} (hscope : c.task.scope? = some scope)
    {e : Expr α} {v : Value} {h : Heap α} {s : S}
    (he : Ends ⟨.expr scope e, c.heap, c.host⟩ (.ok v) h s) : Extends c.heap h [v] := by
  have hpart : Stands ⟨.expr scope e, c.heap, c.host⟩ := by
    refine hc.later (.refl hc.heap) ?_ fun _ hv => (List.not_mem_nil hv).elim
    rintro _ ⟨⟩
    exact hscope
  exact hpart.extends he

/-- All parts that a job that stands turns to stand. -/
theorem TurnsTo.stands (hcd : c.TurnsTo d) (hc : c.Stands) : d.Stands := by
  have hscope : ∀ scope, d.task.scope? = some scope → c.task.scope? = some scope :=
    fun _ => hcd.scope?_eq
  have hsame := Extends.refl hc.heap
  cases hcd with
  | operand | left | assigned | condition | callee | elements | indexed | members | head | key
  | declared | returned | expression | statement | loopCondition =>
      exact hc.later hsame hscope fun _ hv => (List.not_mem_nil hv).elim
  | rounds =>
      exact hc.later hsame hscope fun v hv => Or.inr (List.mem_singleton.mp hv)
  | right he | arguments he | index he | tail he | value he _ =>
      exact hc.later (hc.extends_expr rfl he) hscope fun _ hv => (List.not_mem_nil hv).elim
  | consequence he _ | alternative he _ | round he _ =>
      exact hc.later (hc.extends_expr rfl he) hscope fun v hv => Or.inr (List.mem_singleton.mp hv)
  | @laterStatements scope x xs sofar h s v h' s' hx =>
      have hstmt : Stands ⟨.stmt scope x, h, s⟩ :=
        hc.later hsame (fun _ hs => hs) fun _ hv => (List.not_mem_nil hv).elim
      exact hc.later (hstmt.extends hx) hscope fun v hv => Or.inl hv
  | @application scope t e es h s f h' s' vs h'' s'' he hes =>
      have hcallee := hc.extends_expr rfl he
      have hexprs : Stands ⟨.exprs scope es, h', s'⟩ :=
        hc.later hcallee (fun _ hs => hs) fun _ hv => (List.not_mem_nil hv).elim
      exact hc.later (hcallee.trans (hexprs.extends hes)) hscope fun v hv => Or.inl hv
  | @laterPairs scope k e ps sofar h s kv key h' s' v h'' s'' hk hkey he =>
      have hkv := hc.extends_expr rfl hk
      have hvalue : Stands ⟨.expr scope e, h', s'⟩ :=
        hc.later hkv (fun _ hs => hs) fun _ hv => (List.not_mem_nil hv).elim
      have hboth := hkv.trans (hvalue.extends he)
      refine ⟨hboth.aged, fun t ht => ?_, fun w hw => ?_⟩
      · exact Nat.lt_of_lt_of_le (hc.task.scopes t ht) hboth.grows.scopes
      · obtain ⟨p, hp, rfl⟩ := List.mem_map.mp hw
        rcases Table.mem_pairs_insert hp with rfl | hold
        · exact hboth.values v (by simp [Task.yielded])
        · exact (hc.task.values p.2 (List.mem_map_of_mem hold)).mono hboth.grows
  | @laterRounds scope k body sofar h s v h' s' w h'' s'' hk _ hbody =>
      have hcondition := hc.extends_expr rfl hk
      have hround : Stands ⟨.stmts scope body .null, h', s'⟩ :=
        hc.later hcondition (fun _ hs => hs) fun _ hv => Or.inr (List.mem_singleton.mp hv)
      refine hc.later (hcondition.trans (hround.extends hbody)) hscope fun u hu => Or.inl ?_
      exact List.mem_append_right _ hu

omit [Digest] [Host (StateM S)] in
/-- The body of a function that is called stands, and so do the statements of a
program. -/
theorem Enters.stands (hcd : c.Enters d) (hc : c.Stands) : d.Stands := by
  cases hcd with
  | @body id f args h s hf hlen =>
      have hop : (Operation.enter f.scope f.params args).StandsIn h := by
        refine ⟨fun v hv => hc.task.values v (List.mem_cons_of_mem _ hv), fun t ht => ?_⟩
        rw [List.mem_singleton.mp ht]
        exact hc.heap.captured id f hf
      refine ⟨hc.heap.apply hop, fun t ht => ?_, fun v hv => ?_⟩
      · obtain rfl := Option.some.inj (Option.mem_toList.mp ht)
        simp [Heap.enter_eq, Heap.addScope]
      · rw [List.mem_singleton.mp hv]
        trivial
  | program =>
      exact hc.later (.refl hc.heap) (fun _ hs => hs) fun v hv => Or.inr (List.mem_singleton.mp hv)

/-- Whatever is begun in the midst of a job that stands, stands. -/
theorem ComesTo.stands (hcd : c.ComesTo d) (hc : c.Stands) : d.Stands := by
  induction hcd with
  | refl => exact hc
  | tail _ hstep ih => exact hstep.elim (fun h => h.stands ih) fun h => h.stands ih

end Job

/-! ## Lifetimes -/

/-- The histories of a heap to which anything is done that refers to what is there,
in any order.  It begins without scopes.  There may be a new scope, inside of
another or not; any operation; and any run, with any fuel and any state of the
host. -/
inductive Lifetime (S : Type) [Digest] [Host (StateM S)] : History α → Prop
  | start : Lifetime S (History.start ⟨#[], #[]⟩)
  | scope {st} (hst : Lifetime S st) (outer : Option ScopeId)
      (houter : ∀ o, outer = some o → o < st.now.scopes.size) :
      Lifetime S (Store.put st (st.now.addScope (.empty outer)).2)
  | operation {st} (hst : Lifetime S st) (op : Operation α) (hop : op.StandsIn st.now) :
      Lifetime S (Store.put st (op.apply st.now))
  | run {st} (hst : Lifetime S st) (t : Task α) (ht : t.StandsIn st.now) (n : Nat) (s : S) :
      Lifetime S ((t.run n).ending st s).state

/-- All heaps in a lifetime are aged. -/
theorem Lifetime.holds [Digest] [Host (StateM S)] {st : History α} (hst : Lifetime S st) :
    Policy.aged.remembered.Holds st := by
  have hadmits : ∀ {st : History α} {h : Heap α}, Policy.aged.remembered.Holds st → h.Aged →
      st.now.GrowsTo h → Policy.aged.remembered.Holds (Store.put st h) := by
    intro st h hst hh hgrows
    have hadmits : Policy.aged.Admits st.now ((), h) fun _ _ => True := ⟨hh, hgrows, trivial⟩
    exact (Policy.remembered_admits Policy.aged_sound hst hadmits).holds
  induction hst with
  | start => exact Policy.remembered_start Heap.aged_empty
  | scope _ outer houter ih =>
      have hnow := ih.1 _ List.mem_cons_self
      exact hadmits ih (Heap.Aged.addScope hnow houter) (Heap.growsTo_addScope _ _)
  | operation _ op hop ih =>
      have hnow := ih.1 _ List.mem_cons_self
      exact hadmits ih (Heap.Aged.apply hnow hop) (Heap.growsTo_apply _ op)
  | run _ t ht n s ih =>
      exact (Policy.runs_task Policy.aged_sound.remembered (fun _ _ => trivial) ih ht.scopes
        ht.values n s).holds

/-- Whatever goes along the links of a heap in search of a name, or to show a value,
comes to an end. -/
structure Heap.Traversable (h : Heap α) : Prop where
  /-- A value that is held anywhere refers to an object of its kind. -/
  values : ∀ p, ∀ v ∈ h.values p, v.StandsIn h
  /-- The scope that a function belongs to is there. -/
  captured : ∀ id f, h.closure? id = some f → f.scope < h.scopes.size
  /-- The scope around a scope was made before it. -/
  outer : ∀ s o, h.outer? s = some o → o < s
  /-- No scope is outside of itself. -/
  not_outer : ∀ s, ¬Relation.TransGen (fun s o => h.outer? s = some o) s s
  /-- No array and no hash holds itself, however far down. -/
  not_contains : ∀ id, ¬Relation.TransGen h.Contains id id
  /-- Whatever is searched for from a scope outward, the search ends, in one way. -/
  search : ∀ {β : Type} (ask : ScopeId → Option β) s, s < h.scopes.size →
    ∃! r, h.SearchEnds ask s r
  /-- The value of a name is what a search for it ends with. -/
  lookup : ∀ s x, s < h.scopes.size →
    h.SearchEnds (fun t => (h.binding? t x).map (·.value)) s (h.lookup s x)
  /-- What is assigned to is what a search for a binding ends with. -/
  holder : ∀ s x, s < h.scopes.size →
    h.SearchEnds (fun t => (h.binding? t x).map (t, ·)) s (h.holder? s x)
  /-- Whether there is a variable, or a constant, is known when a search for one has
  ended. -/
  exists_binding : ∀ s kind x, s < h.scopes.size →
    ∃ r, h.SearchEnds (fun t => h.bound? t kind x) s r ∧ h.existsBinding s kind x = r.isSome
  /-- Every value that is there is shown by its text, and by no other. -/
  shows : ∀ v text, v.StandsIn h → (h.Shows v text ↔ text = h.display v)

theorem Heap.Aged.traversable {h : Heap α} (hh : h.Aged) : h.Traversable where
  values := hh.values
  captured := hh.captured
  outer := hh.outer
  not_outer := Heap.not_transGen_self hh.outer
  not_contains := Heap.not_transGen_self hh.contents
  search ask _ hs :=
    have hsearch := Heap.searchEnds_chain hh.outer ask hs
    ⟨_, hsearch, fun _ hr => hr.unique hsearch⟩
  lookup _ x hs := Heap.searchEnds_lookup hh.outer hs x
  holder _ x hs := Heap.searchEnds_holder? hh.outer hs x
  exists_binding s kind x hs :=
    ⟨_, Heap.searchEnds_chain hh.outer _ hs, h.existsBinding_eq_isSome s kind x⟩
  shows v text hv := by
    constructor
    · exact fun htext => htext.unique (hh.shows_display hv)
    · rintro rfl
      exact hh.shows_display hv

/-- A program that binds a function in the scope that the function belongs to. -/
def knottedProgram : Program Unit :=
  ⟨[.declare .var () ⟨(), "f"⟩ (.func () [] (.mk () [.expr () (.ident ⟨(), "f"⟩)]))]⟩

/-- The history of a heap with one scope, in which the program is run. -/
def knotted [Digest] [Host (StateM S)] (s : S) : History Unit :=
  (((Task.program 0 knottedProgram).run 4).ending
    ⟨⟨#[], #[.empty none]⟩, [⟨#[], #[]⟩]⟩ s).state

theorem knotted_lifetime [Digest] [Host (StateM S)] (s : S) : Lifetime S (knotted s) := by
  have hscope : Lifetime (α := Unit) S ⟨⟨#[], #[.empty none]⟩, [⟨#[], #[]⟩]⟩ :=
    Lifetime.scope .start none (by rintro _ ⟨⟩)
  refine hscope.run (.program 0 knottedProgram) ⟨fun t ht => ?_, fun v hv => ?_⟩ 4 s
  · rw [List.mem_singleton.mp ht]
    exact Nat.one_pos
  · cases hv

theorem knotted_now [Digest] [Host (StateM S)] (s : S) : (knotted s).now =
    ⟨#[.func ⟨[], .mk () [.expr () (.ident ⟨(), "f"⟩)], 0⟩],
      #[⟨Assoc.ofList [("f", .func 0)], Assoc.empty, none⟩]⟩ :=
  rfl

open Job in
/-- Heaps never become cyclic where names are searched for and values are shown.

In every heap of a lifetime, all searches for names and all texts of values come to
an end; so they do in the midst of every run, where nothing is come upon but what
is in the heap, and what a run comes to is in the heap that it leaves.  Yet a
function and the scope that it belongs to can lead to each other. -/
theorem links_come_to_an_end [Digest] [Host (StateM S)] :
    (∀ st : History α, Lifetime S st → (∀ h ∈ st.heaps, h.Traversable) ∧
      ∀ (t : Task α) (s : S), t.StandsIn st.now →
        (∀ d, ComesTo ⟨t, st.now, s⟩ d → d.heap.Traversable ∧ d.task.StandsIn d.heap) ∧
        ∀ r h' s', Ends ⟨t, st.now, s⟩ (.ok r) h' s' →
          h'.Traversable ∧ ∀ v ∈ t.yielded r, v.StandsIn h') ∧
    ∀ _ : S, ∃ st : History Unit, Lifetime S st ∧
      ∃ p, Relation.TransGen (fun p q => q ∈ st.now.links p) p p := by
  refine ⟨fun st hst => ?_, fun s => ?_⟩
  · have haged : ∀ h ∈ st.heaps, h.Aged := hst.holds.1
    refine ⟨fun h hh => (haged h hh).traversable, fun t s ht => ?_⟩
    have hstands : Stands ⟨t, st.now, s⟩ := ⟨haged _ List.mem_cons_self, ht⟩
    refine ⟨fun d hd => ?_, fun r h' s' hends => ?_⟩
    · obtain ⟨hheap, htask⟩ := hd.stands hstands
      exact ⟨hheap.traversable, htask⟩
    · have hextends := hstands.extends hends
      exact ⟨hextends.aged.traversable, hextends.values⟩
  · refine ⟨knotted s, knotted_lifetime s, .scope 0, ?_⟩
    have hbound : .object 0 ∈ (knotted s).now.links (.scope 0) := by
      rw [knotted_now]
      exact List.mem_cons_self
    have hcaptured : .scope 0 ∈ (knotted s).now.links (.object 0) := by
      rw [knotted_now]
      exact List.mem_cons_self
    exact .tail (.single hbound) hcaptured

/-- The function is found and shown, though its scope leads back to it. -/
theorem knotted_comes_to_an_end :
    Lifetime Memory (knotted (Memory.start [] ∅)) ∧
    (knotted (Memory.start [] ∅)).now.SearchEnds
      (fun t => ((knotted (Memory.start [] ∅)).now.binding? t "f").map (·.value)) 0
      (some (.func 0)) ∧
    (knotted (Memory.start [] ∅)).now.Shows (.func 0) "func() { f }" := by
  have hlifetime := knotted_lifetime (Memory.start [] ∅)
  obtain ⟨hheaps, -⟩ := links_come_to_an_end.1 _ hlifetime
  have hnow := hheaps _ List.mem_cons_self
  refine ⟨hlifetime, hnow.lookup 0 "f" Nat.one_pos, ?_⟩
  exact (hnow.shows (.func 0) _ rfl).mpr (by decide +kernel)

end MonkeyLang
