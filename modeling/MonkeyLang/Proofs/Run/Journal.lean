import MonkeyLang.Host.Memory
import MonkeyLang.Proofs.Run.Carrying

/-!
# Output and exit codes are written only

A journal is a host that knows nothing of what a host in memory has written before, or of
the exit code that it has: it only notes what is added.  What a run does to a host in memory
is what it does to a journal, put behind what was there.  So nothing depends on what was
there, and nothing of it is lost.
-/

namespace MonkeyLang

theorem Memory.run_readFile (path : String) (s : Memory) :
    (Host.readFile path : StateM Memory (Except String String)).run s =
      (((FileStore.read? s.files path).map .ok).getD (.error path), s) := by
  simp only [Host.readFile, StateT.run_bind, StateT.run_get, pure_bind]
  cases FileStore.read? s.files path <;> rfl

/-- What a run does to a host in memory that has some lines waiting: how many of them it
takes, what becomes of the files, what it writes, and with which codes it asks for the end
of the process. -/
structure Journal (lines : List String) where
  taken : Nat
  files : FileStore
  written : String
  codes : List Int32

namespace Journal

variable {lines : List String} {α σ β γ : Type}

/-- The journal of a run that has done nothing yet. -/
def start (lines : List String) (files : FileStore) : Journal lines :=
  ⟨0, files, "", []⟩

instance : Host (StateM (Journal lines)) where
  write text := modify fun j => { j with written := j.written ++ text }
  readLine := modifyGet fun j =>
    match lines[j.taken]? with
    | some line => (some line, { j with taken := j.taken + 1 })
    | none => (none, j)
  exit code := modifyGet fun j => (false, { j with codes := j.codes ++ [code] })
  readFile path := modifyGet fun j =>
    (((FileStore.read? j.files path).map .ok).getD (.error path), j)
  writeFile path contents := modifyGet fun j =>
    (.ok (), { j with files := FileStore.write j.files path contents })

/-- A host in memory on which all that is in a journal has been done. -/
def on (s : Memory) (j : Journal lines) : Memory :=
  ⟨s.output ++ j.written, lines.drop j.taken, j.codes.getLast?.or s.exitCode, j.files⟩

theorem start_on (s : Memory) : (start s.input s.files).on s = s := by
  simp [start, on]

theorem along_on (s : Memory) : Host.Along fun j : Journal lines => j.on s where
  write text j := by
    change ((), (⟨s.output ++ j.written ++ text, _, _, _⟩ : Memory)) = _
    rw [String.append_assoc]
    rfl
  readLine j := by
    change ((lines.drop j.taken).head?, (⟨_, (lines.drop j.taken).tail, _, _⟩ : Memory)) =
      ((match lines[j.taken]? with
        | some line => (some line, { j with taken := j.taken + 1 })
        | none => (none, j) : Option String × Journal lines).map id fun j => j.on s)
    rw [List.head?_drop, List.tail_drop]
    cases hline : lines[j.taken]? with
    | none =>
        have hend : lines.length ≤ j.taken := List.getElem?_eq_none_iff.mp hline
        rw [List.drop_eq_nil_of_le (Nat.le_succ_of_le hend), ← List.drop_eq_nil_of_le hend]
        rfl
    | some line => rfl
  exit code j := by
    change (false, (⟨_, _, some code, _⟩ : Memory)) =
      (false, ⟨_, _, (j.codes ++ [code]).getLast?.or _, _⟩)
    rw [List.getLast?_concat]
    rfl
  readFile path j := by
    rw [Memory.run_readFile]
    rfl
  writeFile path contents j := rfl

/-- What is done on a journal is done on the hosts on which it is. -/
theorem endsIn_on_iff [Digest] {scope : ScopeId} {p : Program α} {h : Heap α} {s : Memory}
    {j : Journal lines} {e : Ending (Heap α) Memory Value} :
    RunOn.EndsIn (Run.program · scope p) h (j.on s) e ↔
      ∃ e', RunOn.EndsIn (Run.program · scope p) h j e' ∧ e'.carry id (·.on s) = e := by
  refine RunOn.endsIn_carry_iff (φ := id) (ψ := fun j : Journal lines => j.on s) fun n => ?_
  have hhost : Host.Along fun j : Journal lines => j.on s := along_on s
  have hprogram :=
    (RunOn.carries_congruence (Store.along_id (σ := Heap α)) hhost).program n scope p
  rwa [Program.map_id] at hprogram

/-! ## Who asks for the end of the process -/

/-- The run asks for no end of the process. -/
def Unasked (x : RunOn σ (StateM (Journal lines)) β) : Prop :=
  ∀ st j, (x.ending st j).host.codes = j.codes

theorem Unasked.bind {x : RunOn σ (StateM (Journal lines)) β}
    {k : β → RunOn σ (StateM (Journal lines)) γ} (hx : Unasked x) (hk : ∀ v, Unasked (k v)) :
    Unasked (x >>= k) := by
  intro st j
  have hfirst := hx st j
  rw [RunOn.ending_bind]
  revert hfirst
  obtain ⟨_ | i | v, st', j'⟩ := x.ending st j
  · exact id
  · exact id
  · exact fun hfirst => (hk v st' j').trans hfirst

theorem Unasked.tryCatch {x : RunOn σ (StateM (Journal lines)) β}
    {k : Interrupt → RunOn σ (StateM (Journal lines)) β} (hx : Unasked x)
    (hk : ∀ i, Unasked (k i)) : Unasked (tryCatch x k) := by
  intro st j
  have hfirst := hx st j
  rw [RunOn.ending_tryCatch]
  revert hfirst
  obtain ⟨_ | i | v, st', j'⟩ := x.ending st j
  · exact id
  · exact fun hfirst => (hk i st' j').trans hfirst
  · exact id

theorem unasked_congruence [Store α σ] :
    Congruence (S := Journal lines) (T := Journal lines) (σ := σ) (τ := σ) (id : α → α)
      fun _ x _ => Unasked x where
  pure _ _ _ := rfl
  outOfFuel _ _ := rfl
  error _ _ _ := rfl
  ret _ _ _ := rfl
  bind := Unasked.bind
  returned hx := hx.tryCatch fun i => by cases i <;> exact fun _ _ => rfl
  reported hx := hx.tryCatch fun i => by cases i <;> exact fun _ _ => rfl
  see _ _ _ := rfl
  closure := by
    intro β id k l h st s
    rw [RunOn.ending_bind, RunOn.ending_see]
    exact h _ st s
  change _ _ _ := rfl
  write _ _ _ := rfl
  readLine st j := by
    rw [RunOn.ending_onHost]
    change ((match lines[j.taken]? with
      | some line => (some line, { j with taken := j.taken + 1 })
      | none => (none, j) : Option String × Journal lines).2).codes = _
    cases lines[j.taken]? <;> rfl
  readFile _ _ _ := rfl
  writeFile _ _ _ _ := rfl

theorem ending_exit [Store α σ] (args : List Value) (st : σ) (j : Journal lines) :
    (Builtin.exit.call args : RunOn σ (StateM (Journal lines)) Value).ending st j =
      match Builtin.exitCode args with
      | .ok code => ⟨some (.ok .null), st, { j with codes := j.codes ++ [code] }⟩
      | .error e => ⟨some (.error (.error e.message)), st, j⟩ := by
  rw [Builtin.call_exit]
  cases Builtin.exitCode args <;> rfl

end Journal

open RunOn

/-- Two hosts in memory that have the same lines waiting and the same files differ in what
was written before and in the exit code only.  A program ends on both or on neither, with
the same outcome and the same heap.  There is one journal of what it does, which is added
to each: the same lines are taken, the files are the same, the same text is put behind the
output, and the exit code is the last that is in the journal, or what it was.  The codes in
a journal are those of the calls of `exit` that were not refused. -/
theorem written_only {α : Type} [Digest] (scope : ScopeId) (p : Program α) (h : Heap α)
    {s s' : Memory} (hinput : s'.input = s.input) (hfiles : s'.files = s.files) :
    ((∃ e, EndsIn (Run.program · scope p) h s e) ↔ ∃ e, EndsIn (Run.program · scope p) h s' e) ∧
    (∀ e e', EndsIn (Run.program · scope p) h s e → EndsIn (Run.program · scope p) h s' e' →
      e'.outcome = e.outcome ∧ e'.state = e.state ∧
      ∃ j : Journal s.input,
        EndsIn (Run.program · scope p) h (Journal.start s.input s.files)
          ⟨e.outcome, e.state, j⟩ ∧
        e.host = ⟨s.output ++ j.written, s.input.drop j.taken,
          j.codes.getLast?.or s.exitCode, j.files⟩ ∧
        e'.host = ⟨s'.output ++ j.written, s.input.drop j.taken,
          j.codes.getLast?.or s'.exitCode, j.files⟩) ∧
    (∀ (b : Builtin) (args : List Value) (st : Heap α) (j : Journal s.input), b ≠ .exit →
      ((b.call args : RunOn (Heap α) (StateM (Journal s.input)) Value).ending st j).host.codes =
        j.codes) ∧
    ∀ (args : List Value) (st : Heap α) (j : Journal s.input),
      (Builtin.exit.call args : RunOn (Heap α) (StateM (Journal s.input)) Value).ending st j =
        match Builtin.exitCode args with
        | .ok code => ⟨some (.ok .null), st, { j with codes := j.codes ++ [code] }⟩
        | .error e => ⟨some (.error (.error e.message)), st, j⟩ := by
  -- Both hosts begin with nothing of one journal done on them.
  have hs : (Journal.start s.input s.files).on s = s := Journal.start_on s
  have hs' : (Journal.start s.input s.files).on s' = s' := by
    rw [← hinput, ← hfiles]
    exact Journal.start_on s'
  have hends (t : Memory) (ht : (Journal.start s.input s.files).on t = t) (e) :
      EndsIn (Run.program · scope p) h t e ↔
        ∃ k, EndsIn (Run.program · scope p) h (Journal.start s.input s.files) k ∧
          k.carry id (·.on t) = e := by
    have hon : EndsIn (Run.program · scope p) h ((Journal.start s.input s.files).on t) e ↔ _ :=
      Journal.endsIn_on_iff
    rwa [ht] at hon
  refine ⟨⟨?_, ?_⟩, fun e e' he he' => ?_, fun b args st j hb => ?_,
    fun args st j => Journal.ending_exit args st j⟩
  · rintro ⟨e, he⟩
    obtain ⟨k, hk, -⟩ := (hends s hs e).mp he
    exact ⟨_, (hends s' hs' _).mpr ⟨k, hk, rfl⟩⟩
  · rintro ⟨e, he⟩
    obtain ⟨k, hk, -⟩ := (hends s' hs' e).mp he
    exact ⟨_, (hends s hs _).mpr ⟨k, hk, rfl⟩⟩
  · obtain ⟨⟨o, st, j⟩, hj, rfl⟩ := (hends s hs e).mp he
    obtain ⟨k, hk, rfl⟩ := (hends s' hs' e').mp he'
    obtain rfl := EndsIn.unique (fun _ _ => Run.program_steady scope p) hj hk
    exact ⟨rfl, rfl, j, hj, rfl, rfl⟩
  · exact Journal.unasked_congruence.call_of_ne_exit hb args st j

/-- A program that asks for a line, writes it, and asks twice for the end of the process. -/
def askingProgram : Program Unit :=
  let call (name : String) (args : List (Expr Unit)) := Expr.call () (.ident ⟨(), name⟩) args
  ⟨[.expr () (call "exit" [.int () 1]), .expr () (call "print" [call "input" []]),
    .expr () (call "exit" [.int () 4])]⟩

/-- A host in memory on which something was written. -/
def writtenOn : Memory :=
  ⟨"before\n", ["a", "b"], none, ∅⟩

/-- A host in memory that was asked for the end of the process. -/
def askedForEnd : Memory :=
  ⟨"", ["a", "b"], some 7, ∅⟩

/-- On both hosts the program writes the line that it takes, and leaves its last code. -/
theorem askingProgram_written_only : ∃ e e',
    EndsIn (Run.program · Heap.globalScope askingProgram) Heap.initial writtenOn e ∧
    EndsIn (Run.program · Heap.globalScope askingProgram) Heap.initial askedForEnd e' ∧
    e'.outcome = e.outcome ∧ e'.state = e.state ∧
    e.host = ⟨"before\na\n", ["b"], some 4, ∅⟩ ∧ e'.host = ⟨"a\n", ["b"], some 4, ∅⟩ := by
  have hends : ((Run.program 9 Heap.globalScope askingProgram).ending Heap.initial
      writtenOn).outcome.isSome = true := by decide +kernel
  have hhost : ((Run.program 9 Heap.globalScope askingProgram).ending Heap.initial
      writtenOn).host = ⟨"before\na\n", ["b"], some 4, ∅⟩ := by decide +kernel
  have he : EndsIn (Run.program · Heap.globalScope askingProgram) Heap.initial writtenOn _ :=
    ⟨Option.isSome_iff_ne_none.mp hends, 9, rfl⟩
  have hinput : askedForEnd.input = writtenOn.input := rfl
  have hfiles : askedForEnd.files = writtenOn.files := rfl
  obtain ⟨hiff, hsame, -⟩ :=
    written_only Heap.globalScope askingProgram Heap.initial hinput hfiles
  obtain ⟨e', he'⟩ := hiff.mp ⟨_, he⟩
  obtain ⟨houtcome, hstate, j, -, hj, hj'⟩ := hsame _ e' he he'
  refine ⟨_, e', he, he', houtcome, hstate, hhost, ?_⟩
  -- The second host is known by the journal, and the journal by the first host.
  obtain ⟨houtput, hinput, hcode, hfiles⟩ := Memory.mk.inj (hj.symm.trans hhost)
  have hcodes : j.codes.getLast? = some 4 := by simpa [writtenOn] using hcode
  have hwritten : j.written = "a\n" := (String.append_right_inj "before\n").mp houtput
  rw [hj', hinput, hfiles, hcodes, hwritten]
  rfl

end MonkeyLang
