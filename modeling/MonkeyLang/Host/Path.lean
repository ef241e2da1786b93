/-!
# Paths

When two paths name the same file.  A path is its steps: repeated slashes, a
slash at the end, and steps `.` other than a first one make no difference.
Steps `..` are kept, and `./a` is not the same path as `a`.
-/

namespace MonkeyLang

/-- The parts of a text between slashes. -/
def slashSeparated : List Char → List (List Char)
  | [] => [[]]
  | c :: cs =>
    match slashSeparated cs with
    | [] => [[]]
    | part :: parts => if c = '/' then [] :: part :: parts else (c :: part) :: parts

/-- The parts of a path, empty ones included. -/
def pathParts (path : String) : List String :=
  (slashSeparated path.toList).map String.ofList

/-- What a path names: whether it starts at the root, and its steps. -/
structure PathName where
  rooted : Bool
  steps : List String
  deriving DecidableEq, Repr, Inhabited

namespace PathName

/-- The parts of a path that lead from one place to another. -/
def properSteps (parts : List String) : List String :=
  parts.filter fun part => part ≠ "" && part ≠ "."

/-- What a path names. -/
def ofPath (path : String) : PathName :=
  let rooted := path.startsWith "/"
  let parts := pathParts path
  let here := if !rooted && parts.head? == some "." then ["."] else []
  ⟨rooted, here ++ properSteps parts⟩

end PathName

end MonkeyLang
