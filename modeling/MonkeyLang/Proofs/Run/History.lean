import MonkeyLang.Proofs.Run.Keeping
import MonkeyLang.Proofs.Run.Natural

/-!
# Runs that remember

A run can be done in a state that remembers all heaps there have been.  A heap
changes only when it is put into the state, so these are all heaps that the run
goes through, also if it never ends.  When the memories are left out, such a run
is the run itself.
-/

namespace MonkeyLang

variable {α S : Type}

/-- The heap of the moment and the heaps before it, the last of them first. -/
structure History (α : Type) where
  now : Heap α
  past : List (Heap α)

namespace History

/-- The history that begins with a heap. -/
def start (h : Heap α) : History α :=
  ⟨h, []⟩

/-- All heaps there have been, the last of them first. -/
def heaps (st : History α) : List (Heap α) :=
  st.now :: st.past

instance : Store α (History α) where
  heap := now
  put st h := ⟨h, st.heaps⟩

/-- The heap of the moment can be kept in place of a history. -/
theorem now_along : Store.Along (σ := History α) (τ := Heap α) id now where
  heap st := (Heap.map_id st.now).symm
  put _ h := (Heap.map_id h).symm

end History

namespace Run

variable [Digest] [Host (StateM S)]

/-- The heaps that the run of a program goes through, the last of them first. -/
def heaps (n : Nat) (scope : ScopeId) (p : Program α) (h : Heap α) (s : S) : List (Heap α) :=
  ((program n scope p).ending (History.start h) s).state.heaps

/-- A program does the same whether or not it is remembered what it does. -/
theorem program_now (n : Nat) (scope : ScopeId) (p : Program α) (h : Heap α) (s : S) :
    (program n scope p).ending h s =
      ((program n scope p).ending (History.start h) s).map History.now := by
  have hmap := program_map History.now_along n scope p (History.start h) s
  rwa [Program.map_id] at hmap

/-- The heaps that a run goes through end with the heap that it leaves. -/
theorem head?_heaps (n : Nat) (scope : ScopeId) (p : Program α) (h : Heap α) (s : S) :
    (heaps n scope p h s).head? = some ((program n scope p).ending h s).state := by
  rw [program_now]
  rfl

end Run

namespace Policy

/-- What a policy says of the heap of the moment, said of all heaps that are
remembered; each of them leads to the later ones. -/
def remembered (P : Policy (Heap α)) : Policy (History α) where
  Holds st := (∀ h ∈ st.heaps, P.Holds h) ∧ st.heaps.Pairwise fun h h' => P.Leads h' h
  Leads st st' := P.Leads st.now st'.now
  Fit st := P.Fit st.now
  Within st := P.Within st.now

variable {P : Policy (Heap α)} {st : History α}

theorem remembered_start {h : Heap α} (hh : P.Holds h) :
    P.remembered.Holds (History.start h) := by
  constructor
  · intro h' hh'
    rwa [List.mem_singleton.mp hh']
  · exact List.pairwise_singleton _ h

/-- A change of the heap of the moment is remembered. -/
theorem remembered_admits {β : Type} (hP : P.Sound) (hst : P.remembered.Holds st)
    {r : β × Heap α} {Q : Heap α → β → Prop} (hr : P.Admits st.now r Q) :
    P.remembered.Admits st r fun st' => Q st'.now := by
  obtain ⟨hholds, hpairwise⟩ := hst
  refine ⟨⟨fun h hh => ?_, ?_⟩, hr.leads, hr.result⟩
  · rcases List.mem_cons.mp hh with rfl | hh
    · exact hr.holds
    · exact hholds h hh
  · refine List.pairwise_cons.mpr ⟨fun h hh => ?_, hpairwise⟩
    rcases List.mem_cons.mp hh with rfl | hpast
    · exact hr.leads
    · exact hP.trans ((List.pairwise_cons.mp hpairwise).1 h hpast) hr.leads

theorem Sound.remembered (hP : P.Sound) : P.remembered.Sound where
  refl st := hP.refl st.now
  trans := hP.trans
  fit_mono := hP.fit_mono
  within_mono := hP.within_mono
  atom := hP.atom
  ret := hP.ret
  lookup hst := hP.lookup (hst.1 _ List.mem_cons_self)
  element hst := hP.element (hst.1 _ List.mem_cons_self)
  pair hst := hP.pair (hst.1 _ List.mem_cons_self)
  array hst hes := remembered_admits hP hst (hP.array (hst.1 _ List.mem_cons_self) hes)
  hash hst ht := remembered_admits hP hst (hP.hash (hst.1 _ List.mem_cons_self) ht)
  func idents body hst hs :=
    remembered_admits hP hst (hP.func idents body (hst.1 _ List.mem_cons_self) hs)
  pop hst hid := remembered_admits hP hst (hP.pop (hst.1 _ List.mem_cons_self) hid)
  declare kind x hst hs hv :=
    remembered_admits hP hst (hP.declare kind x (hst.1 _ List.mem_cons_self) hs hv)
  assign x hst hs hv :=
    remembered_admits hP hst (hP.assign x (hst.1 _ List.mem_cons_self) hs hv)
  enter hst hid hf hargs :=
    remembered_admits hP hst (hP.enter (hst.1 _ List.mem_cons_self) hid hf hargs)

/-- All heaps that a program goes through keep to a sound policy. -/
theorem holds_of_mem_heaps [Digest] [Host (StateM S)] (hP : P.Sound) {h : Heap α} (hh : P.Holds h)
    {scope : ScopeId} (hscope : P.Within h scope) (n : Nat) (p : Program α) (s : S) :
    ∀ h' ∈ Run.heaps n scope p h s, P.Holds h' :=
  (runs_program hP.remembered (remembered_start hh) hscope n p s).holds.1

end Policy

end MonkeyLang
