import MonkeyLang.Run.Basic
import MonkeyLang.Store.Display

/-!
# Builtin functions

What the builtin functions do with their arguments.  Each checks the number of
its arguments before their kinds, and both before doing anything.
-/

namespace MonkeyLang

namespace Builtin

variable {α σ : Type} {m : Type → Type} [Monad m]

/-- The number of arguments that a builtin function wants, as it is said in
messages; `print` takes any number. -/
def arity : Builtin → String
  | push | write => "2"
  | input | exit => "0 or 1"
  | _ => "1"

/-- The refusal of a number of arguments. -/
@[inline]
def wrongCount (b : Builtin) (args : List Value) : RunOn σ m Value :=
  Run.raise (.argumentCount args.length b.arity)

/-- The elements of an argument that has to be an array. -/
@[inline]
def elementsOf [Store α σ] (b : Builtin) : Value → RunOn σ m (List Value)
  | .array id => Run.see (·.elements id)
  | v => Run.raise (.badArgument b .array v.kind)

/-- The text of an argument that has to be one. -/
@[inline]
def textOf (b : Builtin) : Value → RunOn σ m String
  | .str s => pure s
  | v => Run.raise (.badArgument b .string v.kind)

/-- A new array. -/
@[inline]
def newArray [Store α σ] (elements : List Value) : RunOn σ m Value := do
  let id ← Run.change (·.alloc (.array elements))
  return .array id

/-- The number of characters of a text or elements of an array. -/
@[inline]
def length [Store α σ] : Value → RunOn σ m Value
  | .str s => return .int (Int64.ofNat s.length)
  | .array id => do
    let elements ← Run.see (·.elements id)
    return .int (Int64.ofNat elements.length)
  | v => Run.raise (.noLength v.kind)

/-- Takes the last element off an array. -/
@[inline]
def popFrom [Store α σ] : Value → RunOn σ m Value
  | .array id => do
    match ← Run.change (·.pop id) with
    | some v => return v
    | none => Run.raise .popFromEmpty
  | v => Run.raise (.badArgument .pop .array v.kind)

variable [Host m]

/-- Writes the text of each value on a line. -/
def printAll [Store α σ] : List Value → RunOn σ m Unit
  | [] => return ()
  | v :: vs => do
    let text ← Run.see (·.display v)
    Run.onHost (Host.write (text ++ "\n"))
    printAll vs

/-- Reads a line; `null` stands for the end of the input. -/
@[inline]
def readLine : RunOn σ m Value := do
  match ← Run.onHost Host.readLine with
  | some line => return .str line
  | none => return .null

/-- Asks for the end of the process. -/
@[inline]
def exitWith (code : Int32) : RunOn σ m Value := do
  if ← Run.onHost (Host.exit code) then Run.interrupt (.exit code) else return .null

/-- Calls a builtin function. -/
@[specialize]
def call [Store α σ] (b : Builtin) (args : List Value) : RunOn σ m Value :=
  match b, args with
  | len, [v] => length v
  | first, [v] => do
    let elements ← elementsOf first v
    return elements.head?.getD .null
  | last, [v] => do
    let elements ← elementsOf last v
    return elements.getLast?.getD .null
  | rest, [v] => do
    match ← elementsOf rest v with
    | [] => return .null
    | _ :: tail => newArray tail
  | push, [v, x] => do
    let elements ← elementsOf push v
    newArray (elements ++ [x])
  | pop, [v] => popFrom v
  | print, vs => do
    printAll vs
    return .null
  | input, [] => readLine
  | input, [prompt] => do
    let text ← Run.see (·.display prompt)
    Run.onHost (Host.write text)
    readLine
  | exit, [] => exitWith 0
  | exit, [.int code] =>
    if -0x80000000 ≤ code.toInt ∧ code.toInt < 0x80000000 then exitWith code.toInt32
    else Run.raise (.exitCodeOutOfRange code)
  | exit, [v] => Run.raise (.badArgument exit .integer v.kind)
  | read, [v] => do
    let path ← textOf read v
    match ← Run.onHost (Host.readFile path) with
    | .ok contents => return .str contents
    | .error _ => Run.raise (.unreadable path)
  | write, [v, x] => do
    let path ← textOf write v
    let contents ← Run.see (·.display x)
    match ← Run.onHost (Host.writeFile path contents) with
    | .ok _ => return .null
    | .error reason => Run.raise (.unwritable path reason)
  | b, args => wrongCount b args

end Builtin

end MonkeyLang
