import MonkeyLang.Session.Basic

/-!
# The command line

The program takes the name of a script, which it runs, and options.  Without a
script, or when asked to, it goes on with an interactive session in which the
names declared by the script are known.
-/

namespace MonkeyLang

namespace CommandLine

/-- What the arguments ask for.  Detailed reports and a log can be asked for
as well; neither changes what is done. -/
structure Options where
  file : Option String
  interactive : Bool
  tokens : Bool
  deriving DecidableEq, Repr, Inhabited

/-- What a list of arguments means. -/
inductive Request where
  | run (options : Options)
  | version
  | help
  | invalid (argument : String)
  deriving DecidableEq, Repr

/-- The options when there are no arguments. -/
def Options.none : Options :=
  ⟨Option.none, false, false⟩

/-- The options with a script, unless there is one already. -/
def Options.withFile (o : Options) (path : String) (next : Options → Request) : Request :=
  match o.file with
  | .none => next { o with file := some path }
  | some _ => .invalid path

/-- Reads arguments that are all names of files. -/
def readFiles : List String → Options → Request
  | [], o => .run o
  | path :: rest, o => o.withFile path (readFiles rest)

/-- Reads the letters of an argument such as `-i`. -/
def readLetters (argument : String) : List Char → Options → Options ⊕ Request
  | [], o => .inl o
  | 'i' :: rest, o => readLetters argument rest { o with interactive := true }
  | 'V' :: _, _ => .inr .version
  | 'h' :: _, _ => .inr .help
  | _, _ => .inr (.invalid argument)

/-- Reads arguments. -/
def readArguments : List String → Options → Request
  | [], o => .run o
  | argument :: rest, o =>
    match argument.toList with
    | ['-', '-'] => readFiles rest o
    | '-' :: '-' :: _ =>
      if argument = "--interactive" then readArguments rest { o with interactive := true }
      else if argument = "--tokens" then readArguments rest { o with tokens := true }
      else if argument = "--fancy-errors" || argument = "--trace" then readArguments rest o
      else if argument = "--version" then .version
      else if argument = "--help" then .help
      else .invalid argument
    | '-' :: c :: letters =>
      match readLetters argument (c :: letters) o with
      | .inl o' => readArguments rest o'
      | .inr request => request
    | _ => o.withFile argument (readArguments rest)

/-- What a list of arguments means. -/
def Request.ofArguments (args : List String) : Request :=
  readArguments args Options.none

/-- The name and version of the program. -/
def versionText : String := "monkey 0.1.0\n"

/-- How the program is used. -/
def helpText : String :=
  "A tree-walking interpreter for the Monkey language\n\n" ++
    "Usage: monkey [OPTIONS] [FILE]\n\n" ++
    "Options:\n" ++
    "  -i, --interactive   Start a session, after FILE has run when both are given\n" ++
    "      --tokens        Print the tokens of FILE instead of running it\n" ++
    "      --fancy-errors  Accepted, without effect\n" ++
    "      --trace         Accepted, without effect\n" ++
    "  -h, --help          Print help\n" ++
    "  -V, --version       Print version\n"

/-- An exit code as the system reports it: modulo 256. -/
def reportedCode (code : Int32) : UInt8 :=
  UInt8.ofNat (code.toInt % 256).toNat

variable {m : Type → Type} [Digest] [Monad m] [System m]

/-- Runs a script, or lists its tokens; says whether that was possible.  An
error that occurs while the script runs is not reported. -/
@[specialize]
def script (n : Nat) (listTokens : Bool) (path : String) : Run m Bool := do
  if !(← Run.onHost (System.pathExists path)) then
    Run.onHost (System.complain ("Error: file '" ++ path ++ "' not found\n"))
    return false
  match ← Run.onHost (Host.readFile path) with
  | .error reason =>
    let complaint := "Error: error reading file '" ++ path ++ "': " ++ reason ++ "\n"
    Run.onHost (System.complain complaint)
    return false
  | .ok source =>
    if listTokens then
      Run.onHost (Host.write (listing source))
      return true
    else
      match ← Run.text n Heap.globalScope source with
      | .error errors =>
        Run.onHost (Host.write (errorReport errors))
        return false
      | .ok _ => return true

/-- Greets, and runs a session. -/
@[specialize]
def session (n : Nat) : Run m Unit := do
  Run.onHost (Host.write Session.greeting)
  Session.run n Heap.globalScope

/-- Does what the options ask for; says whether that was possible. -/
@[specialize]
def execute (n : Nat) (o : Options) : Run m Bool := do
  match o.file with
  | some path =>
    if ← script n o.tokens path then
      if o.interactive then session n
      return true
    else return false
  | none =>
    session n
    return true

/-- Does what the arguments ask for and gives the exit code, unless there was
not enough fuel. -/
@[specialize]
def run (n : Nat) (args : List String) : m (Option UInt8) := do
  match Request.ofArguments args with
  | .version =>
    Host.write versionText
    return some 0
  | .help =>
    Host.write helpText
    return some 0
  | .invalid argument =>
    System.complain ("error: unexpected argument '" ++ argument ++ "' found\n")
    return some 2
  | .run o =>
    let (outcome, _) ← (execute n o).start Heap.initial
    match outcome with
    | none => return none
    | some (.ok done) => return some (if done then 0 else 1)
    | some (.error (.exit code)) => return some (reportedCode code)
    | some (.error _) => return some 1

end CommandLine

end MonkeyLang
