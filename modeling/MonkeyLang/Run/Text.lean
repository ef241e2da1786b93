import MonkeyLang.Reading.Tree
import MonkeyLang.Run.Tree

/-!
# Running texts

A text is run by reading it as a program and running the program.  A text with
errors in it is not run at all.  The functions that a text makes can keep the
tokens of their parameters and bodies; as nothing looks at them, they are left
out by `Run.text`.
-/

namespace MonkeyLang

namespace Run

variable {σ : Type} {m : Type → Type} [Digest] [Monad m] [Host m]

/-- Runs a text in a scope, or gives the errors in it.  Functions keep the
tokens that they were read from. -/
@[specialize]
def annotatedText [Store (Token Position) σ] (n : Nat) (scope : ScopeId)
    (source : String) : RunOn σ m (Except (List (ParseError Position)) Value) :=
  match parse source with
  | .error errors => return .error errors
  | .ok p => do
    let v ← program n scope p
    return .ok v

/-- Runs a text in a scope, or gives the errors in it. -/
@[specialize]
def text (n : Nat) (scope : ScopeId) (source : String) :
    Run m (Except (List (ParseError Position)) Value) :=
  match parse source with
  | .error errors => return .error errors
  | .ok p => do
    let v ← program n scope p.erase
    return .ok v

end Run

end MonkeyLang
