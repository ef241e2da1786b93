import MonkeyLang.Host.Path
import MonkeyLang.Store.Assoc

/-!
# Directories

The files below a working directory, as a process sees them: how a path is
followed step by step, and why it may lead nowhere.  Of what is outside the
directory nothing is known but that it is there.
-/

namespace MonkeyLang

/-- Why a file cannot be read or written. -/
inductive FileFault where
  | missing | notDirectory | isDirectory | nameTooLong | badName | notText
  deriving DecidableEq, Repr

/-- The message of a fault. -/
def FileFault.message : FileFault → String
  | missing => "No such file or directory (os error 2)"
  | notDirectory => "Not a directory (os error 20)"
  | isDirectory => "Is a directory (os error 21)"
  | nameTooLong => "File name too long (os error 36)"
  | badName => "file name contained an unexpected NUL byte"
  | notText => "stream did not contain valid UTF-8"

/-- The files below a directory, by the names that lead to them.  There are the
directories that have files in them, and the directory itself. -/
abbrev Directory := Assoc (List String) ByteArray

/-- What there can be at a place. -/
inductive DirectoryEntry where
  | file (contents : ByteArray)
  | directory
  | missing

/-- A directory that a path can come to: the one to which some names lead from
the working directory, or one that the working directory is not above. -/
inductive Location where
  | inside (names : List String)
  | outside
  deriving DecidableEq, Repr

/-- Where a path leads: the directory reached by all but its last step, the
last step, and whether a slash follows it. -/
structure Destination where
  parent : Location
  last : String
  slash : Bool

namespace Directory

/-- The directory with files at the given paths. -/
def ofList (files : List (String × ByteArray)) : Directory :=
  Assoc.ofList (files.map fun f => (PathName.properSteps (pathParts f.1), f.2))

/-- The files, each with its path. -/
def toList (d : Directory) : List (String × ByteArray) :=
  d.entries.map fun e => ("/".intercalate e.1, e.2)

/-- What some names lead to. -/
def entryAt (d : Directory) (names : List String) : DirectoryEntry :=
  if names = [] then .directory
  else
    match d.find? names with
    | some contents => .file contents
    | none => if d.keys.any names.isPrefixOf then .directory else .missing

/-- How many bytes a path has at most. -/
def maxPathSize : Nat := 4095

/-- How many bytes a name has at most. -/
def maxNameSize : Nat := 255

/-- The names that lead to a name in the directory at a place. -/
def child (place : Location) (name : String) : Except FileFault (List String) :=
  if maxNameSize < name.utf8ByteSize then .error .nameTooLong
  else
    match place with
    | .inside names => .ok (names ++ [name])
    | .outside => .error .missing

/-- The directory above the one at a place.  Above the root is the root. -/
def above : Location → Location
  | .inside [] => .outside
  | .inside names => .inside names.dropLast
  | .outside => .outside

/-- The directory to which some steps lead from the one at a place. -/
def walk (d : Directory) (place : Location) : List String → Except FileFault Location
  | [] => .ok place
  | step :: steps =>
    if step = "." then walk d place steps
    else if step = ".." then walk d (above place) steps
    else do
      let names ← child place step
      match d.entryAt names with
      | .directory => walk d (.inside names) steps
      | .file _ => .error .notDirectory
      | .missing => .error .missing

/-- Where a path leads. -/
def follow (d : Directory) (path : String) : Except FileFault Destination :=
  if path.toList.contains '\x00' then .error .badName
  else if maxPathSize < path.utf8ByteSize then .error .nameTooLong
  else
    let rooted := path.startsWith "/"
    let steps := (pathParts path).filter (· ≠ "")
    let start := if rooted then .outside else .inside []
    match steps.getLast? with
    | none => if rooted then .ok ⟨start, ".", true⟩ else .error .missing
    | some last => do
      let parent ← d.walk start steps.dropLast
      return ⟨parent, last, path.endsWith "/"⟩

/-- Whether a step leads to a directory by itself. -/
def isDotStep (step : String) : Bool :=
  step == "." || step == ".."

/-- The contents of the file at a path. -/
def read (d : Directory) (path : String) : Except FileFault ByteArray := do
  let dest ← d.follow path
  if isDotStep dest.last then .error .isDirectory
  else
    match d.entryAt (← child dest.parent dest.last) with
    | .file contents => if dest.slash then .error .notDirectory else .ok contents
    | .directory => .error .isDirectory
    | .missing => .error .missing

/-- The contents of the file at a path, as a text. -/
def readText (d : Directory) (path : String) : Except FileFault String := do
  match String.fromUTF8? (← d.read path) with
  | some text => .ok text
  | none => .error .notText

/-- The directory after writing the file at a path. -/
def write (d : Directory) (path : String) (contents : ByteArray) :
    Except FileFault Directory := do
  let dest ← d.follow path
  if isDotStep dest.last || dest.slash then .error .isDirectory
  else
    let names ← child dest.parent dest.last
    match d.entryAt names with
    | .directory => .error .isDirectory
    | _ => .ok (d.insert names contents)

/-- Whether a path leads to a file or directory. -/
def pathExists (d : Directory) (path : String) : Bool :=
  match d.read path with
  | .ok _ => true
  | .error fault => fault == .isDirectory

end Directory

end MonkeyLang
