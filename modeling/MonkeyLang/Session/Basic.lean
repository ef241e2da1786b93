import MonkeyLang.Run.Text
import MonkeyLang.Text.Blank

/-!
# Interactive sessions

A session asks for entries and runs each in the same scope.  An entry is a
line, and as many lines after it as are needed to close its braces.  A session
ends at a blank line in place of an entry, or at the end of what is typed.
-/

namespace MonkeyLang

/-- The report of the errors in a text. -/
def errorReport (errors : List (ParseError Position)) : String :=
  "Woops! We ran into some monkey business here!\n\nparser errors:\n\n" ++
    String.join (errors.map fun e => "\t" ++ e.message ++ "\n")

namespace Session

/-- What is shown where an entry may begin. -/
def prompt : String := ">> "

/-- What is shown where an entry goes on. -/
def continuationPrompt : String := ".. "

/-- What is shown before a session. -/
def greeting : String :=
  "Hello! This is the Monkey programming language.\n" ++
    "Feel free to type in commands. An empty line quits.\n"

/-- Whether an entry opens more braces than it closes.  Braces inside strings
do not count. -/
def isOpen (source : String) : Bool :=
  let kinds := (tokens source).map (·.kind)
  kinds.count .rightBrace < kinds.count .leftBrace

/-- What is shown of the outcome of an entry, if anything. -/
def answer (h : Heap) : Except (List (ParseError Position)) Value → Option String
  | .error errors => some (errorReport errors)
  | .ok v => if v.isNull then none else some (h.display v ++ "\n")

variable {m : Type → Type} [Digest] [Monad m] [Terminal m]

/-- Shows a text. -/
@[inline]
def say (text : String) : Run m Unit :=
  Run.onHost (Terminal.say text)

/-- The entry that begins with the lines read so far. -/
@[specialize]
def entry : Nat → String → Run m String
  | 0, _ => Run.outOfFuel
  | n + 1, sofar =>
    if isOpen sofar then do
      say continuationPrompt
      match ← Run.onHost Terminal.hear with
      | some line => entry n (sofar ++ "\n" ++ line)
      | none => return sofar
    else return sofar

/-- Runs a session in a scope. -/
@[specialize]
def run : Nat → ScopeId → Run m Unit
  | 0, _ => Run.outOfFuel
  | n + 1, scope => do
    say prompt
    match ← Run.onHost Terminal.hear with
    | none => return ()
    | some line =>
      if isBlankText line then return ()
      else
        let source ← entry n line
        let outcome ← Run.text n scope source
        match ← Run.see (answer · outcome) with
        | some text => say text
        | none => pure ()
        run n scope

end Session

end MonkeyLang
