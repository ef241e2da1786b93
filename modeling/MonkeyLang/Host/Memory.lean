import MonkeyLang.Host.Basic
import MonkeyLang.Host.Path
import MonkeyLang.Store.Assoc
import MonkeyLang.Text.Line

/-!
# Hosts in memory

`Memory` is a host that keeps everything to itself: it collects the output,
has its input lines waiting, records exit codes without ending anything, and
keeps files by name.  `Desk` adds a text being typed and a screen.
-/

namespace MonkeyLang

/-- A file in memory: the path under which it was first stored, and its
contents. -/
structure StoredFile where
  path : String
  contents : String
  deriving DecidableEq, Repr, Inhabited

/-- Files in memory, by what their paths name. -/
abbrev FileStore := Assoc PathName StoredFile

namespace FileStore

/-- The contents of the file that a path names. -/
def read? (files : FileStore) (path : String) : Option String :=
  (files.find? (PathName.ofPath path)).map (·.contents)

/-- The files after writing one.  A file that is there keeps its path. -/
def write (files : FileStore) (path contents : String) : FileStore :=
  let name := PathName.ofPath path
  match files.find? name with
  | some file => files.insert name { file with contents := contents }
  | none => files.insert name ⟨path, contents⟩

/-- The store of some files, written one after the other. -/
def ofList (files : List (String × String)) : FileStore :=
  files.foldl (fun store f => FileStore.write store f.1 f.2) Assoc.empty

/-- A file that was written is read back, and no other file is changed. -/
theorem read?_write (files : FileStore) (path contents other : String) :
    (write files path contents).read? other =
      if PathName.ofPath path = PathName.ofPath other then some contents
      else files.read? other := by
  cases hfile : files.find? (PathName.ofPath path) with
  | none =>
    simp only [write, read?, hfile, Assoc.find?_insert]
    split <;> rfl
  | some file =>
    simp only [write, read?, hfile, Assoc.find?_insert]
    split <;> rfl

end FileStore

/-- A host in memory. -/
structure Memory where
  /-- All that was written. -/
  output : String
  /-- The lines not yet read. -/
  input : List String
  /-- The last exit code that was asked for. -/
  exitCode : Option Int32
  files : FileStore
  deriving DecidableEq, Repr, Inhabited

namespace Memory

/-- A host that has input lines and files, and where nothing has happened. -/
def start (input : List String) (files : FileStore) : Memory :=
  ⟨"", input, none, files⟩

instance : Host (StateM Memory) where
  write text := modify fun s => { s with output := s.output ++ text }
  readLine := modifyGet fun s => (s.input.head?, { s with input := s.input.tail })
  exit code := modifyGet fun s => (false, { s with exitCode := some code })
  readFile path := do
    match FileStore.read? (← get).files path with
    | some contents => return .ok contents
    | none => return .error path
  writeFile path contents := modifyGet fun s =>
    (.ok (), { s with files := FileStore.write s.files path contents })

end Memory

/-- A host in memory, with a text that is being typed and what is shown to the
one who types it. -/
structure Desk where
  memory : Memory
  typed : List Char
  screen : String

namespace Desk

/-- Does something on the memory of a desk. -/
def within {α : Type} (x : StateM Memory α) : StateM Desk α := fun s =>
  let r := x.run s.memory
  (r.1, { s with memory := r.2 })

instance : Terminal (StateM Desk) where
  write text := within (Host.write text)
  readLine := within Host.readLine
  exit code := within (Host.exit code)
  readFile path := within (Host.readFile path)
  writeFile path contents := within (Host.writeFile path contents)
  say text := modify fun s => { s with screen := s.screen ++ text }
  hear := modifyGet fun s =>
    match takeLine? s.typed with
    | none => (none, s)
    | some (line, rest) => (some line, { s with typed := rest })

end Desk

end MonkeyLang
