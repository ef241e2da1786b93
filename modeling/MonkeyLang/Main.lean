import MonkeyLang.Session.CommandLine
import MonkeyLang.Text.Line

/-!
# The program

The command line on the real system.
-/

namespace MonkeyLang

/-- Writes to the standard output at once. -/
def printNow (text : String) : IO Unit := do
  let out ← IO.getStdout
  out.putStr text
  out.flush

/-- Takes a line off the standard input. -/
def nextInputLine : IO (Option String) := do
  let line ← (← IO.getStdin).getLine
  return (takeLine? line.toList).map (·.1)

/-- What the system says of a failure. -/
def failureText : IO.Error → String
  | .noFileOrDirectory .. => "No such file or directory (os error 2)"
  | .inappropriateType .. => "Is a directory (os error 21)"
  | .permissionDenied .. => "Permission denied (os error 13)"
  | e => toString e

instance : System IO where
  write := printNow
  readLine := nextInputLine
  exit _ := return true
  readFile path := do
    try
      match String.fromUTF8? (← IO.FS.readBinFile path) with
      | some text => return .ok text
      | none => return .error "stream did not contain valid UTF-8"
    catch e => return .error (failureText e)
  writeFile path contents := do
    try
      IO.FS.writeFile path contents
      return .ok ()
    catch e => return .error (failureText e)
  say := printNow
  hear := nextInputLine
  pathExists path := do
    try
      discard (IO.FS.readBinFile path)
      return true
    catch
      | .noFileOrDirectory .. => return false
      | _ => return true
  complain text := do
    (← IO.getStderr).putStr text

/-- More fuel than any run uses up. -/
def plenty : Nat := 0x4000000000000000

end MonkeyLang

/-- Does what the arguments ask for. -/
def main (args : List String) : IO UInt32 := do
  let code ← MonkeyLang.CommandLine.run MonkeyLang.plenty args
  return (code.getD 1).toUInt32
