import MonkeyLang.Proofs.Run.Arithmetic
import MonkeyLang.Proofs.Run.Journal
import MonkeyLang.Proofs.Run.Objects
import MonkeyLang.Proofs.Run.Plain

/-!
# A call of a builtin function that fails does nothing

A builtin function looks at its arguments before it does anything.  So where the call fails,
nothing has been written, read, popped, stored or noted.

An element of an array, once taken out, could be an error itself; so it is asked that no errors
and no returns are among the arguments or in them.
-/

namespace MonkeyLang

open RunOn

variable {α S : Type}

/-- What there is in a value: the value itself, and what is in the elements of an array and in the
values of a hash. -/
inductive Heap.Includes (h : Heap α) : Value → Value → Prop
  | itself (v : Value) : h.Includes v v
  | element {id : ObjectId} {v w : Value} (hv : v ∈ h.elements id) (hw : h.Includes v w) :
      h.Includes (.array id) w
  | member {id : ObjectId} {p : Key × Value} {w : Value} (hp : p ∈ (h.table id).pairs)
      (hw : h.Includes p.2 w) : h.Includes (.hash id) w

/-- Something ends with a plain value; or it fails, and then the heap is `h` and the state of the
host `s`, as they were. -/
def Ending.FailsCleanly (h : Heap α) (s : S) (e : Ending (Heap α) S Value) : Prop :=
  (∃ v, e.outcome = some (.ok v) ∧ v.IsPlain) ∨
    ∃ error : RuntimeError, e = ⟨some (.error error.interrupt), h, s⟩

namespace Builtin

variable {h : Heap α} {s : S} {b : Builtin} {v : Value}

theorem isPlain_getD_null {found : Option Value} (hfound : ∀ w ∈ found, w.IsPlain) :
    (found.getD .null).IsPlain := by
  cases found with
  | none => trivial
  | some w => exact hfound w rfl

theorem failsCleanly_raise (error : RuntimeError) :
    ((Run.raise error : RunOn (Heap α) (StateM S) Value).ending h s).FailsCleanly h s :=
  Or.inr ⟨error, rfl⟩

/-- What is done with the elements of an argument fails cleanly if it does so for arrays. -/
theorem failsCleanly_elementsOf {k : List Value → RunOn (Heap α) (StateM S) Value}
    (hk : ∀ id, v = .array id → ((k (h.elements id)).ending h s).FailsCleanly h s) :
    ((b.elementsOf v >>= k).ending h s).FailsCleanly h s := by
  cases v with
  | array id =>
      rw [ending_bind_of_ok (Job.ending_elementsOf b id)]
      exact hk id rfl
  | _ => exact failsCleanly_raise _

theorem failsCleanly_textOf {k : String → RunOn (Heap α) (StateM S) Value}
    (hk : ∀ text, ((k text).ending h s).FailsCleanly h s) :
    ((b.textOf v >>= k).ending h s).FailsCleanly h s := by
  cases v with
  | str text => exact hk text
  | _ => exact failsCleanly_raise _

theorem failsCleanly_newArray (vs : List Value) :
    ((newArray vs : RunOn (Heap α) (StateM S) Value).ending h s).FailsCleanly h s :=
  Or.inl ⟨.array h.objects.size, rfl, trivial⟩

theorem failsCleanly_length (v : Value) :
    ((length v : RunOn (Heap α) (StateM S) Value).ending h s).FailsCleanly h s := by
  cases v with
  | str text => exact Or.inl ⟨_, rfl, trivial⟩
  | array id => exact Or.inl ⟨_, rfl, trivial⟩
  | _ => exact failsCleanly_raise _

/-- An array that is popped without success is as it was. -/
theorem failsCleanly_popFrom (hplain : ∀ id, v = .array id → ∀ w ∈ h.elements id, w.IsPlain) :
    ((popFrom v : RunOn (Heap α) (StateM S) Value).ending h s).FailsCleanly h s := by
  cases v with
  | array id =>
      rw [Job.ending_popFrom]
      rcases h.pop_cases id with ⟨-, hpop⟩ | ⟨es, w, ho, hpop⟩
      · rw [hpop]
        exact failsCleanly_raise .popFromEmpty
      · rw [hpop]
        have hw : w ∈ h.elements id := by
          rw [Heap.elements, ho]
          exact List.mem_append_right es (List.mem_singleton_self w)
        exact Or.inl ⟨w, rfl, hplain id rfl w hw⟩
  | _ => exact failsCleanly_raise _

variable [Host (StateM S)]

theorem exists_ending_printAll (vs : List Value) (s : S) :
    ∃ s', (printAll vs : RunOn (Heap α) (StateM S) Unit).ending h s = ⟨some (.ok ()), h, s'⟩ := by
  induction vs generalizing s with
  | nil => exact ⟨s, rfl⟩
  | cons v vs ih =>
      obtain ⟨s', hs'⟩ := ih ((Host.write (h.display v ++ "\n") : StateM S Unit).run s).2
      refine ⟨s', ?_⟩
      rw [printAll, ending_bind_of_ok (ending_see h s _), ending_bind_of_ok (ending_onHost _ _ _)]
      exact hs'

theorem failsCleanly_readLine {h' : Heap α} {s' : S} :
    ((readLine : RunOn (Heap α) (StateM S) Value).ending h' s').FailsCleanly h s := by
  rw [readLine, ending_bind_of_ok (ending_onHost _ _ _)]
  cases ((Host.readLine : StateM S (Option String)).run s').1 with
  | none => exact Or.inl ⟨.null, rfl, trivial⟩
  | some line => exact Or.inl ⟨.str line, rfl, trivial⟩

/-! ## On a host in memory -/

theorem failsCleanly_exit (args : List Value) (s : Memory) :
    ((exit.call args : RunOn (Heap α) (StateM Memory) Value).ending h s).FailsCleanly h s := by
  rw [call_exit]
  cases exitCode args with
  | ok code => exact Or.inl ⟨.null, rfl, trivial⟩
  | error error => exact failsCleanly_raise error

theorem failsCleanly_read (v : Value) (s : Memory) :
    ((read.call [v] : RunOn (Heap α) (StateM Memory) Value).ending h s).FailsCleanly h s := by
  rw [call]
  refine failsCleanly_textOf fun path => ?_
  rw [ending_bind_of_ok (ending_onHost _ _ _), Memory.run_readFile]
  cases FileStore.read? s.files path with
  | none => exact failsCleanly_raise (.unreadable path)
  | some contents => exact Or.inl ⟨.str contents, rfl, trivial⟩

theorem failsCleanly_write (v x : Value) (s : Memory) :
    ((write.call [v, x] : RunOn (Heap α) (StateM Memory) Value).ending h s).FailsCleanly h s := by
  rw [call]
  refine failsCleanly_textOf fun path => ?_
  exact Or.inl ⟨.null, rfl, trivial⟩

end Builtin

open Builtin in
/-- A call of a builtin function on a host in memory, with any number of arguments of any kinds,
among which and in which there are no errors and no returns, comes to a plain value; or it fails,
and then the heap with its arrays and scopes and the host with its output, its input, its exit code
and its files are as they were. -/
theorem builtins_fail_cleanly {h : Heap α} {args : List Value}
    (hplain : ∀ v ∈ args, ∀ w, h.Includes v w → w.IsPlain) (b : Builtin) (s : Memory) :
    ((b.call args : RunOn (Heap α) (StateM Memory) Value).ending h s).FailsCleanly h s := by
  have helement : ∀ id, .array id ∈ args → ∀ w ∈ h.elements id, w.IsPlain :=
    fun id hid w hw => hplain _ hid w (.element hw (.itself w))
  induction b, args using Builtin.call_cases with
  | len v => exact failsCleanly_length v
  | first v =>
      refine failsCleanly_elementsOf ?_
      rintro id rfl
      refine Or.inl ⟨_, rfl, isPlain_getD_null ?_⟩
      intro w hw
      exact helement id (List.mem_singleton_self _) w (List.mem_of_mem_head? hw)
  | last v =>
      refine failsCleanly_elementsOf ?_
      rintro id rfl
      refine Or.inl ⟨_, rfl, isPlain_getD_null ?_⟩
      intro w hw
      exact helement id (List.mem_singleton_self _) w (List.mem_of_getLast? hw)
  | rest v =>
      refine failsCleanly_elementsOf ?_
      intro id _
      cases h.elements id with
      | nil => exact Or.inl ⟨.null, rfl, trivial⟩
      | cons _ tail => exact failsCleanly_newArray tail
  | push v x =>
      refine failsCleanly_elementsOf ?_
      intro id _
      exact failsCleanly_newArray _
  | pop v =>
      refine failsCleanly_popFrom ?_
      rintro id rfl
      exact helement id (List.mem_singleton_self _)
  | print vs =>
      obtain ⟨s', hs'⟩ := exists_ending_printAll (h := h) vs s
      refine Or.inl ⟨.null, ?_, trivial⟩
      rw [call, ending_bind_of_ok hs']
      rfl
  | input => exact failsCleanly_readLine
  | prompt v => exact failsCleanly_readLine
  | exit => exact failsCleanly_exit [] s
  | code v => exact failsCleanly_exit [v] s
  | read v => exact failsCleanly_read v s
  | write v x => exact failsCleanly_write v x s
  | refused b args hcall =>
      rw [hcall]
      exact failsCleanly_raise _

/-- A heap with an empty array, and an array with the empty array in it. -/
def emptyInArray : Heap :=
  ⟨#[.array [], .array [.array 0]], #[.empty none]⟩

/-- An array is no name of a file, and so the other array is not written to any. -/
theorem emptyInArray_fails_cleanly :
    (∀ v ∈ [Value.array 1, .array 0], ∀ w, emptyInArray.Includes v w → w.IsPlain) ∧
      ((Builtin.write.call [.array 1, .array 0] : RunOn Heap (StateM Memory) Value).ending
        emptyInArray ⟨"before", ["a"], some 7, ∅⟩).FailsCleanly emptyInArray
        ⟨"before", ["a"], some 7, ∅⟩ := by
  have helements : ∀ id, ∀ v ∈ emptyInArray.elements id, v = .array 0 := by
    intro id v hv
    match id with
    | 0 => cases hv
    | 1 => exact List.mem_singleton.mp hv
    | _ + 2 => cases hv
  have harrays : ∀ v w, emptyInArray.Includes v w → (∃ id, v = .array id) → w.IsPlain := by
    intro v w hincludes
    induction hincludes with
    | itself v =>
        rintro ⟨id, rfl⟩
        trivial
    | element hv _ ih => exact fun _ => ih ⟨0, helements _ _ hv⟩
    | member hp _ _ =>
        rintro ⟨id, hid⟩
        cases hid
  have hplain : ∀ v ∈ [Value.array 1, .array 0], ∀ w, emptyInArray.Includes v w → w.IsPlain := by
    intro v hv w hw
    rcases List.mem_cons.mp hv with rfl | hv
    · exact harrays _ w hw ⟨1, rfl⟩
    · exact harrays _ w hw ⟨0, List.mem_singleton.mp hv⟩
  exact ⟨hplain, builtins_fail_cleanly hplain .write _⟩

end MonkeyLang
