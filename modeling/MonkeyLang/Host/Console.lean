import MonkeyLang.Host.Basic
import MonkeyLang.Host.Directory
import MonkeyLang.Text.Line

/-!
# Consoles

A console is what a program started from a command line has: a working
directory with files, a text on its input, and two outputs.  The program's own
output and what it shows to the one who is typing are one and the same, and so
are its input and what is typed.  Asking for the end of the process ends it.
-/

namespace MonkeyLang

/-- The files of a program, what is left of its input, and its outputs. -/
structure Console where
  files : Directory
  stdin : List Char
  stdout : String
  stderr : String

namespace Console

/-- A console on which nothing has happened. -/
def start (files : Directory) (stdin : String) : Console :=
  ⟨files, stdin.toList, "", ""⟩

/-- Writes to the standard output. -/
def print (text : String) : StateM Console Unit :=
  modify fun s => { s with stdout := s.stdout ++ text }

/-- Takes a line off the standard input. -/
def nextLine : StateM Console (Option String) :=
  modifyGet fun s =>
    match takeLine? s.stdin with
    | none => (none, s)
    | some (line, rest) => (some line, { s with stdin := rest })

instance : System (StateM Console) where
  write := print
  readLine := nextLine
  exit _ := return true
  readFile path := do
    match (← get).files.readText path with
    | .ok text => return .ok text
    | .error fault => return .error fault.message
  writeFile path contents := do
    match (← get).files.write path contents.toUTF8 with
    | .ok files =>
      modify fun s => { s with files := files }
      return .ok ()
    | .error fault => return .error fault.message
  say := print
  hear := nextLine
  pathExists path := return (← get).files.pathExists path
  complain text := modify fun s => { s with stderr := s.stderr ++ text }

end Console

end MonkeyLang
