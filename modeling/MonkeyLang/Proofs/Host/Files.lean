import MonkeyLang.Proofs.Host.Path
import MonkeyLang.Proofs.Run.Journal
import MonkeyLang.Proofs.Store.Contents

/-!
# Files in memory

The files of a host in memory are a map from what paths name to texts.  Whatever calls of `read`
and `write` were made, reading a path finds what was last written to the file that it names, under
this or any other path; or what was in the file at first; or nothing, and the call fails.

Besides, the files keep the paths under which they were first stored.  No two of these name the
same file, and none of them is ever changed.
-/

namespace MonkeyLang

variable {α : Type}

namespace FileStore

/-- The paths under which the files are stored. -/
def paths (files : FileStore) : List String :=
  files.values.map (·.path)

/-- Every file is kept by what its path names, and there are no two of one name.  So are all files
that were put in one after the other, whatever they are (`orderly_ofList`). -/
structure Orderly (files : FileStore) : Prop where
  keys : files.keys = files.paths.map PathName.ofPath
  nodup : files.keys.Nodup

/-- Writing changes the text of a file that is there, or puts a new file behind the others. -/
theorem write_cases (files : FileStore) (path contents : String) :
    ((∃ file, files.find? (PathName.ofPath path) = some file) ∧
      (write files path contents).keys = files.keys ∧
      (write files path contents).paths = files.paths) ∨
    (files.find? (PathName.ofPath path) = none ∧
      (write files path contents).keys = files.keys ++ [PathName.ofPath path] ∧
      (write files path contents).paths = files.paths ++ [path]) := by
  rw [write]
  cases hfile : files.find? (PathName.ofPath path) with
  | none =>
      have hentries := Assoc.entries_insert_of_new hfile ⟨path, contents⟩
      refine Or.inr ⟨rfl, ?_, ?_⟩
      · simp [Assoc.keys, hentries]
      · simp [paths, Assoc.values, hentries]
  | some file =>
      refine Or.inl ⟨⟨file, rfl⟩, Assoc.map_entries_insert hfile rfl, ?_⟩
      simp only [paths, Assoc.values, List.map_map]
      exact Assoc.map_entries_insert hfile rfl

namespace Orderly

variable {files : FileStore}

theorem ofPath_eq (h : files.Orderly) {name : PathName} {file : StoredFile}
    (hentry : (name, file) ∈ files.entries) : PathName.ofPath file.path = name := by
  have hmap : files.entries.map (fun e => PathName.ofPath e.2.path) = files.entries.map (·.1) := by
    have hkeys := h.keys
    simp only [Assoc.keys, paths, Assoc.values, List.map_map] at hkeys
    exact hkeys.symm
  exact List.map_inj_left.mp hmap _ hentry

/-- What is read under a path is the text of the file whose path names the same. -/
theorem read?_eq_some_iff (h : files.Orderly) {path contents : String} :
    files.read? path = some contents ↔
      ∃ file ∈ files.values, SamePath file.path path ∧ file.contents = contents := by
  rw [read?, Option.map_eq_some_iff]
  constructor
  · rintro ⟨file, hfile, rfl⟩
    have hentry := Assoc.mem_entries_of_find? hfile
    exact ⟨file, Assoc.mem_values_of_find? hfile, samePath_iff_ofPath.mpr (h.ofPath_eq hentry), rfl⟩
  · rintro ⟨file, hfile, hsame, rfl⟩
    obtain ⟨⟨name, file⟩, hentry, rfl⟩ := List.mem_map.mp hfile
    have hname : PathName.ofPath path = name :=
      (samePath_iff_ofPath.mp hsame).symm.trans (h.ofPath_eq hentry)
    exact ⟨file, hname ▸ Assoc.find?_of_mem_entries h.nodup hentry, rfl⟩

theorem read?_eq_none_iff (h : files.Orderly) {path : String} :
    files.read? path = none ↔ ∀ file ∈ files.values, ¬SamePath file.path path := by
  rw [Option.eq_none_iff_forall_ne_some]
  constructor
  · intro hnone file hfile hsame
    exact hnone _ (h.read?_eq_some_iff.mpr ⟨file, hfile, hsame, rfl⟩)
  · intro hnone contents hread
    obtain ⟨file, hfile, hsame, -⟩ := h.read?_eq_some_iff.mp hread
    exact hnone file hfile hsame

theorem pairwise_paths (h : files.Orderly) : files.paths.Pairwise fun p q => ¬SamePath p q := by
  have hnodup := h.nodup
  rw [h.keys, List.nodup_iff_pairwise_ne, List.pairwise_map] at hnodup
  exact hnodup.imp fun hne hsame => hne (samePath_iff_ofPath.mp hsame)

theorem exists_find?_iff (h : files.Orderly) {path : String} :
    (∃ file, files.find? (PathName.ofPath path) = some file) ↔
      ∃ p ∈ files.paths, SamePath p path := by
  constructor
  · rintro ⟨file, hfile⟩
    refine ⟨file.path, List.mem_map_of_mem (Assoc.mem_values_of_find? hfile), ?_⟩
    exact samePath_iff_ofPath.mpr (h.ofPath_eq (Assoc.mem_entries_of_find? hfile))
  · rintro ⟨p, hp, hsame⟩
    have hkey : PathName.ofPath path ∈ files.keys := by
      rw [h.keys, ← samePath_iff_ofPath.mp hsame]
      exact List.mem_map_of_mem hp
    exact Assoc.exists_find?_of_mem_keys hkey

/-- The paths stay; and a path of no file becomes one when it is written to. -/
theorem paths_write (h : files.Orderly) (path contents : String) :
    (write files path contents).paths =
      if ∃ p ∈ files.paths, SamePath p path then files.paths else files.paths ++ [path] := by
  rcases write_cases files path contents with ⟨hfile, -, hpaths⟩ | ⟨hnone, -, hpaths⟩
  · rw [if_pos (h.exists_find?_iff.mp hfile), hpaths]
  · have hfile : ¬∃ file, files.find? (PathName.ofPath path) = some file := by simp [hnone]
    rw [if_neg (mt h.exists_find?_iff.mpr hfile), hpaths]

theorem write (h : files.Orderly) (path contents : String) :
    (FileStore.write files path contents).Orderly := by
  constructor
  · rcases write_cases files path contents with ⟨-, hkeys, hpaths⟩ | ⟨-, hkeys, hpaths⟩
    · rw [hkeys, hpaths, h.keys]
    · rw [hkeys, hpaths, h.keys, List.map_append, List.map_singleton]
  · rw [FileStore.write]
    split <;> exact Assoc.nodup_keys_insert _ _ h.nodup

end Orderly

theorem orderly_empty : Orderly Assoc.empty :=
  ⟨rfl, List.nodup_nil⟩

/-- Files that were written one after the other are in order. -/
theorem orderly_ofList (files : List (String × String)) : (FileStore.ofList files).Orderly := by
  have hfold : ∀ (store : FileStore), store.Orderly →
      (files.foldl (fun store f => FileStore.write store f.1 f.2) store).Orderly := by
    induction files with
    | nil => exact fun _ h => h
    | cons f files ih => exact fun _ h => ih _ (h.write f.1 f.2)
  exact hfold _ orderly_empty

theorem paths_prefix_write (files : FileStore) (path contents : String) :
    files.paths <+: (write files path contents).paths := by
  rcases write_cases files path contents with ⟨-, -, hpaths⟩ | ⟨-, -, hpaths⟩
  · exact hpaths ▸ List.prefix_refl _
  · exact hpaths ▸ List.prefix_append _ _

theorem read?_write_of_same {files : FileStore} {path q : String} (contents : String)
    (h : SamePath path q) : (write files path contents).read? q = some contents := by
  rw [read?_write, if_pos (samePath_iff_ofPath.mp h)]

theorem read?_write_of_not_same {files : FileStore} {path q : String} (contents : String)
    (h : ¬SamePath path q) : (write files path contents).read? q = files.read? q := by
  rw [read?_write, if_neg (mt samePath_iff_ofPath.mpr h)]

end FileStore

/-- A call of `read` or of `write`.  What is to be written may stand for an object of the heap, and
each call has the heap of its time. -/
inductive FileCall (α : Type) where
  | read (h : Heap α) (path : String)
  | write (h : Heap α) (path : String) (v : Value)

namespace FileCall

/-- Where a call on a host in memory ends. -/
def ending (s : Memory) : FileCall α → Ending (Heap α) Memory Value
  | read h path => (Builtin.read.call [.str path] : RunOn (Heap α) (StateM Memory) Value).ending h s
  | write h path v =>
    (Builtin.write.call [.str path, v] : RunOn (Heap α) (StateM Memory) Value).ending h s

/-- Whether a call writes to the file that a path names. -/
def WritesTo (q : String) : FileCall α → Prop
  | read _ _ => False
  | write _ path _ => SamePath path q

instance (q : String) (c : FileCall α) : Decidable (c.WritesTo q) :=
  match c with
  | .read _ _ => isFalse id
  | .write _ path _ => inferInstanceAs (Decidable (SamePath path q))

end FileCall

namespace Memory

variable {s : Memory} {q : String} {calls : List (FileCall α)}

/-- The memory after some calls. -/
def after (s : Memory) (calls : List (FileCall α)) : Memory :=
  calls.foldl (fun s c => (c.ending s).host) s

/-- Reading a path answers so whatever the heap is, and leaves everything as it is. -/
def Answers (s : Memory) (q : String) (answer : Except Interrupt Value) : Prop :=
  ∀ (α : Type) (h : Heap α), (FileCall.read h q).ending s = ⟨some answer, h, s⟩

/-- How reading answers, by what is found. -/
def answerOf (q : String) : Option String → Except Interrupt Value
  | some contents => .ok (.str contents)
  | none => .error (.error ("could not read file: " ++ q))

theorem answers_read? (s : Memory) (q : String) : s.Answers q (answerOf q (s.files.read? q)) := by
  intro α h
  have htext : (Builtin.textOf .read (.str q) : RunOn (Heap α) (StateM Memory) String).ending h s =
      ⟨some (.ok q), h, s⟩ := rfl
  rw [FileCall.ending, Builtin.call, RunOn.ending_bind_of_ok htext,
    RunOn.ending_bind_of_ok (RunOn.ending_onHost _ _ _), run_readFile]
  cases s.files.read? q <;> rfl

theorem answers_iff {s : Memory} {q : String} {answer : Except Interrupt Value} :
    s.Answers q answer ↔ answer = answerOf q (s.files.read? q) := by
  constructor
  · intro hanswer
    have hsame := (hanswer Unit Heap.initial).symm.trans (s.answers_read? q Unit Heap.initial)
    exact Option.some.inj (Ending.mk.inj hsame).1
  · rintro rfl
    exact s.answers_read? q

end Memory

namespace FileCall

variable {s : Memory} {q : String}

theorem host_read (s : Memory) (h : Heap α) (path : String) :
    ((read h path).ending s).host = s := by
  rw [s.answers_read? path α h]

theorem files_write (s : Memory) (h : Heap α) (path : String) (v : Value) :
    ((write h path v).ending s).host.files = s.files.write path (h.display v) := rfl

/-- A call leaves the files in order. -/
theorem orderly_ending (c : FileCall α) (hs : s.files.Orderly) :
    (c.ending s).host.files.Orderly := by
  cases c with
  | read h path => rwa [host_read]
  | write h path v =>
      rw [files_write]
      exact hs.write path (h.display v)

/-- A call that does not write to a file leaves it as it is. -/
theorem read?_ending (c : FileCall α) (hc : ¬c.WritesTo q) :
    (c.ending s).host.files.read? q = s.files.read? q := by
  cases c with
  | read h path => rw [host_read]
  | write h path v =>
      rw [files_write]
      exact FileStore.read?_write_of_not_same (h.display v) hc

/-- No path of a file is changed or taken away by a call. -/
theorem paths_prefix_ending (c : FileCall α) :
    s.files.paths <+: (c.ending s).host.files.paths := by
  cases c with
  | read h path => exact (host_read s h path).symm ▸ List.prefix_refl _
  | write h path v =>
      rw [files_write]
      exact FileStore.paths_prefix_write s.files path (h.display v)

end FileCall

namespace Memory

variable {s : Memory} {q : String} {calls : List (FileCall α)}

theorem after_append (s : Memory) (calls calls' : List (FileCall α)) :
    s.after (calls ++ calls') = (s.after calls).after calls' :=
  List.foldl_append

theorem orderly_after (hs : s.files.Orderly) (calls : List (FileCall α)) :
    (s.after calls).files.Orderly := by
  induction calls generalizing s with
  | nil => exact hs
  | cons c calls ih => exact ih (c.orderly_ending hs)

theorem read?_after (hcalls : ∀ c ∈ calls, ¬c.WritesTo q) :
    (s.after calls).files.read? q = s.files.read? q := by
  induction calls generalizing s with
  | nil => rfl
  | cons c calls ih =>
      obtain ⟨hc, hcalls⟩ := List.forall_mem_cons.mp hcalls
      exact (ih hcalls).trans (c.read?_ending hc)

theorem paths_prefix_after (s : Memory) (calls : List (FileCall α)) :
    s.files.paths <+: (s.after calls).files.paths := by
  induction calls generalizing s with
  | nil => exact List.prefix_refl _
  | cons c calls ih => exact c.paths_prefix_ending.trans (ih _)

end Memory

open Memory

/-- Whatever calls of `read` and `write` are made on a host in memory, with any heaps: a path is
read as the text that was last written under a path of the same file; if there is none, as the text
that the file had at first; and if there was no such file, not at all.  Calls that do not write to
a file do not change how it is read.  No two paths under which files are stored name the same file,
and each stays; a path becomes one of them if it is written to and none of them names its file.

Two paths name the same file if one comes from the other by what makes no difference: slashes
doubled or at the end, and steps `.` behind a slash.  All else is told apart: paths from the root
and others, a step `.` at the beginning, and the other steps, `..` among them. -/
theorem reads_find_last_write {s : Memory} (hs : s.files.Orderly) (calls : List (FileCall α)) :
    (∀ before h path v later q, calls = before ++ .write h path v :: later → SamePath path q →
      (∀ c ∈ later, ¬c.WritesTo q) → (s.after calls).Answers q (.ok (.str (h.display v)))) ∧
    (∀ q, (∀ c ∈ calls, ¬c.WritesTo q) →
      (∀ file ∈ s.files.values, SamePath file.path q →
        (s.after calls).Answers q (.ok (.str file.contents))) ∧
      ((∀ file ∈ s.files.values, ¬SamePath file.path q) →
        (s.after calls).Answers q (.error (.error ("could not read file: " ++ q))))) ∧
    (∀ (later : List (FileCall α)) q answer, (∀ c ∈ later, ¬c.WritesTo q) →
      ((s.after (calls ++ later)).Answers q answer ↔ (s.after calls).Answers q answer)) ∧
    (s.after calls).files.paths.Pairwise (fun p q => ¬SamePath p q) ∧
    (∀ later : List (FileCall α),
      (s.after calls).files.paths <+: (s.after (calls ++ later)).files.paths) ∧
    (∀ h path v, (s.after (calls ++ [.write h path v])).files.paths =
      if ∃ p ∈ (s.after calls).files.paths, SamePath p path then (s.after calls).files.paths
      else (s.after calls).files.paths ++ [path]) ∧
    ∀ p q, SamePath p q ↔ p.startsWith "/" = q.startsWith "/" ∧
      ((pathParts p).head? = some "." ↔ (pathParts q).head? = some ".") ∧
      PathName.properSteps (pathParts p) = PathName.properSteps (pathParts q) := by
  have horderly := orderly_after hs calls
  refine ⟨?_, ?_, ?_, horderly.pairwise_paths, ?_, ?_, fun p q => samePath_iff_steps⟩
  · rintro before h path v later q rfl hsame hlater
    have hread : (s.after (before ++ .write h path v :: later)).files.read? q =
        some (h.display v) := by
      rw [after_append]
      exact (read?_after hlater).trans (FileStore.read?_write_of_same (h.display v) hsame)
    rw [answers_iff, hread]
    rfl
  · intro q hcalls
    have hread : (s.after calls).files.read? q = s.files.read? q := read?_after hcalls
    constructor
    · intro file hfile hsame
      have hfound : s.files.read? q = some file.contents :=
        hs.read?_eq_some_iff.mpr ⟨file, hfile, hsame, rfl⟩
      rw [answers_iff, hread, hfound]
      rfl
    · intro hfiles
      rw [answers_iff, hread, hs.read?_eq_none_iff.mpr hfiles]
      rfl
  · intro later q answer hlater
    rw [answers_iff, answers_iff, after_append, read?_after hlater]
  · intro later
    rw [after_append]
    exact paths_prefix_after _ later
  · intro h path v
    rw [after_append]
    exact horderly.paths_write path (h.display v)

/-- A heap with an array. -/
def arrayHeap : Heap :=
  ⟨#[.array [.int 1, .str "é"]], #[.empty none]⟩

/-- A host in memory with two files. -/
def respelledFiles : Memory :=
  .start [] (FileStore.ofList [("a//b", "old"), ("/x", "root")])

/-- A file is written to under other paths than the one that it was stored under, and another one
is written beside it. -/
def respelledCalls : List (FileCall Unit) :=
  [.write Heap.initial "a/./b/" (.bool true), .write arrayHeap "a/b/." (.array 0),
    .read arrayHeap "x", .write Heap.initial "./a/b" (.str "beside")]

/-- Each file is found under any path of it, and they keep the paths of their first storing. -/
theorem respelled_find_last_write : respelledFiles.files.Orderly ∧
    (respelledFiles.after respelledCalls).Answers "a/b" (.ok (.str "[1, é]")) ∧
    (respelledFiles.after respelledCalls).Answers "//./x" (.ok (.str "root")) ∧
    (respelledFiles.after respelledCalls).Answers "x"
      (.error (.error "could not read file: x")) ∧
    (respelledFiles.after respelledCalls).files.paths = ["a//b", "/x", "./a/b"] := by
  have horderly : respelledFiles.files.Orderly := FileStore.orderly_ofList _
  obtain ⟨hwritten, hinitial, -⟩ := reads_find_last_write horderly respelledCalls
  have hdisplay : arrayHeap.display (.array 0) = "[1, é]" := by decide +kernel
  have hroot : ∃ file ∈ respelledFiles.files.values,
      SamePath file.path "//./x" ∧ file.contents = "root" := by decide +kernel
  refine ⟨horderly, ?_, ?_, ?_, by decide +kernel⟩
  · have hread := hwritten [.write Heap.initial "a/./b/" (.bool true)] arrayHeap "a/b/." (.array 0)
      _ "a/b" rfl (by decide +kernel) (by decide +kernel)
    rwa [hdisplay] at hread
  · obtain ⟨file, hfile, hsame, hcontents⟩ := hroot
    have hread := (hinitial "//./x" (by decide +kernel)).1 file hfile hsame
    rwa [hcontents] at hread
  · exact (hinitial "x" (by decide +kernel)).2 (by decide +kernel)

end MonkeyLang
