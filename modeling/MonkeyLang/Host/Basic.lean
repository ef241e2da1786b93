/-!
# Hosts

What a running program needs from its surroundings, and what an interactive
session and the command line need besides.  A host is a monad `m` in which
these things can be done.
-/

namespace MonkeyLang

/-- Output, input, files, and the end of the process. -/
class Host (m : Type → Type) where
  /-- Writes a text as it is. -/
  write : String → m Unit
  /-- Reads a line, without what ends it, unless there is none left. -/
  readLine : m (Option String)
  /-- Asks for the end of the process; says whether the run ends with it. -/
  exit : Int32 → m Bool
  /-- Reads a file, or says why it cannot be read. -/
  readFile : String → m (Except String String)
  /-- Writes a file, or says why it cannot be written. -/
  writeFile : String → String → m (Except String Unit)

/-- A host on which someone is typing. -/
class Terminal (m : Type → Type) extends Host m where
  /-- Shows a text to the one who is typing. -/
  say : String → m Unit
  /-- Takes a line that was typed, without what ends it, unless there is none
  left. -/
  hear : m (Option String)

/-- A host that can be started from a command line. -/
class System (m : Type → Type) extends Terminal m where
  /-- Whether a path leads to something. -/
  pathExists : String → m Bool
  /-- Writes a text where failures are reported. -/
  complain : String → m Unit

end MonkeyLang
