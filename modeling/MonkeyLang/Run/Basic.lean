import MonkeyLang.Host.Basic
import MonkeyLang.Run.Error

/-!
# Running

`Run m` is the monad of running programs on a host `m`.  A run changes a heap,
may be interrupted, and may find that it was not given enough fuel.  Running
out of fuel is none of the ways in which a program can end; what the run has
done to the heap and the host until then is known all the same.

What is run asks no more of its state than that a heap is kept in it, so the
state is a parameter: `RunOn σ m`.
-/

namespace MonkeyLang

/-- What keeps an evaluation from going on. -/
inductive Interrupt where
  /-- Something went wrong. -/
  | error (message : String)
  /-- A value is being returned from the function around. -/
  | ret (v : Value)
  /-- The process ends. -/
  | exit (code : Int32)
  deriving DecidableEq, Repr

/-- States in which a heap is kept.  A heap is such a state itself; others hold
more than the heap of the moment. -/
class Store (α : outParam Type) (σ : Type) where
  /-- The heap of a state. -/
  heap : σ → Heap α
  /-- The state with another heap. -/
  put : σ → Heap α → σ

instance {α : Type} : Store α (Heap α) where
  heap h := h
  put _ h := h

/-- Runs on a host, with a state of type `σ` and with interrupts. -/
abbrev RunOn (σ : Type) (m : Type → Type) : Type → Type :=
  ExceptT Interrupt (OptionT (StateT σ m))

/-- Runs on a host, with a heap and with interrupts. -/
abbrev Run (m : Type → Type) : Type → Type :=
  RunOn Heap m

/-- The outcome of a run from a state, or nothing if there was not enough fuel,
and the state that it leaves. -/
@[inline]
def RunOn.start {σ α : Type} {m : Type → Type} (x : RunOn σ m α) (st : σ) :
    m (Option (Except Interrupt α) × σ) :=
  ((x.run).run).run st

namespace Run

variable {α σ β : Type} {m : Type → Type} [Monad m]

/-- The run that has no fuel left. -/
@[inline]
def outOfFuel : RunOn σ m β :=
  ExceptT.mk (OptionT.mk (pure none))

/-- Interrupts the run. -/
@[inline]
def interrupt (i : Interrupt) : RunOn σ m β :=
  throw i

/-- Ends the run with an error. -/
@[inline]
def raise (e : RuntimeError) : RunOn σ m β :=
  interrupt (.error e.message)

/-- The value, or the end of the run with an error. -/
@[inline]
def ofExcept : Except RuntimeError β → RunOn σ m β
  | .ok a => pure a
  | .error e => raise e

/-- Something that is seen in the heap. -/
@[inline]
def see [Store α σ] (f : Heap α → β) : RunOn σ m β :=
  ExceptT.mk (OptionT.mk fun st => pure (some (.ok (f (Store.heap st))), st))

/-- A change of the heap. -/
@[inline]
def change [Store α σ] (f : Heap α → β × Heap α) : RunOn σ m β :=
  ExceptT.mk (OptionT.mk fun st =>
    let r := f (Store.heap st)
    pure (some (.ok r.1), Store.put st r.2))

/-- A change of the bindings in the heap, which may be refused. -/
@[inline]
def rebind [Store α σ] (f : Heap α → Except BindingError Unit × Heap α) :
    RunOn σ m Unit := do
  match ← change f with
  | .ok _ => pure ()
  | .error e => raise (.binding e)

/-- Something that is done on the host. -/
@[inline]
def onHost (x : m β) : RunOn σ m β :=
  ExceptT.lift (OptionT.lift (StateT.lift x))

/-- A value that evaluation has come upon.  An error goes on as an error, and a
pending return as a return. -/
@[inline]
def settle : Value → RunOn σ m Value
  | .error message => interrupt (.error message)
  | .ret v => interrupt (.ret v)
  | v => pure v

/-- A run out of which a returned value comes as its value. -/
@[inline]
def returned (x : RunOn σ m Value) : RunOn σ m Value :=
  tryCatch x fun
    | .ret v => pure v
    | i => interrupt i

/-- A run out of which an error comes as a value. -/
@[inline]
def reported (x : RunOn σ m Value) : RunOn σ m Value :=
  tryCatch x fun
    | .error message => pure (.error message)
    | i => interrupt i

/-- A run out of which errors and returns come as the values that stand for
them. -/
@[inline]
def held (x : RunOn σ m Value) : RunOn σ m Value :=
  tryCatch x fun
    | .error message => pure (.error message)
    | .ret v => pure (.ret v)
    | i => interrupt i

end Run

end MonkeyLang
