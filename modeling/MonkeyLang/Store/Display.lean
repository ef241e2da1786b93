import MonkeyLang.Store.Heap
import MonkeyLang.Tree.Render

/-!
# The text of a value

How values are shown: by `print`, in files, in prompts, and in an interactive
session.  Arrays and hashes show what they hold.  Objects refer to older ones
only, so a heap of `n` objects has no more than `n` levels to show.
-/

namespace MonkeyLang

/-- The text of a function: its parameters and its body. -/
def Closure.display {α : Type} (f : Closure α) : String :=
  "func(" ++ commaSeparated f.params ++ ") " ++ f.body.render

/-- The text of a value, given the texts of arrays, hashes and functions. -/
def Value.displayWith (object : ObjectId → String) : Value → String
  | int n => n.toInt.repr
  | str s => s
  | bool b => if b then "true" else "false"
  | null => "null"
  | ret v => v.displayWith object
  | error message => "ERROR: " ++ message
  | builtin _ => "builtin function"
  | func id | array id | hash id => object id

/-- Whether the text of a value is determined by what it holds, given that of
arrays and hashes. -/
def Value.isOrderedWith (object : ObjectId → Bool) : Value → Bool
  | ret v => v.isOrderedWith object
  | array id | hash id => object id
  | _ => true

namespace Heap

variable {α : Type}

/-- The text of an object, of which at most `n` levels are shown. -/
def displayObject (h : Heap α) : Nat → ObjectId → String
  | 0, _ => ""
  | n + 1, id =>
    match h.objects[id]? with
    | none => ""
    | some (.array es) =>
      "[" ++ commaSeparated (es.map (Value.displayWith (displayObject h n))) ++ "]"
    | some (.hash t) =>
      "\x7b" ++ commaSeparated (t.pairs.map fun p =>
        p.1.value.displayWith (displayObject h n) ++ ": " ++
          p.2.displayWith (displayObject h n)) ++ "\x7d"
    | some (.func f) => f.display

/-- The text of a value. -/
def display (h : Heap α) (v : Value) : String :=
  v.displayWith (h.displayObject h.objects.size)

/-- Whether at most `n` levels of an object hold no hash of two or more
pairs. -/
def isOrderedObject (h : Heap α) : Nat → ObjectId → Bool
  | 0, _ => true
  | n + 1, id =>
    match h.objects[id]? with
    | some (.array es) => es.all (Value.isOrderedWith (isOrderedObject h n))
    | some (.hash t) =>
      t.size < 2 && t.pairs.all fun p => p.2.isOrderedWith (isOrderedObject h n)
    | _ => true

/-- Whether the text of a value is determined by what it holds: the pairs of a
hash have no order, so no hash that is shown may have two or more. -/
def isOrdered (h : Heap α) (v : Value) : Bool :=
  v.isOrderedWith (h.isOrderedObject h.objects.size)

end Heap

end MonkeyLang
