import MonkeyLang.Text.Digest
import MonkeyLang.Tree.Basic

/-!
# Values

The values of the language.  Numbers, texts, truth values and `null` carry
their content; arrays, hashes and functions live in a heap and are known by
their place there.  Errors and pending returns are values as well, so that
they can be handed around from outside; a running program never stores one.
-/

namespace MonkeyLang

/-- The place of an object in a heap. -/
abbrev ObjectId := Nat

/-- The place of a scope in a heap. -/
abbrev ScopeId := Nat

/-- The functions that are there from the start. -/
inductive Builtin where
  | len | first | last | rest | push | pop | print | input | exit | read | write
  deriving DecidableEq, Repr, Inhabited

namespace Builtin

/-- The name of a builtin function. -/
def name : Builtin → String
  | len => "len"
  | first => "first"
  | last => "last"
  | rest => "rest"
  | push => "push"
  | pop => "pop"
  | print => "print"
  | input => "input"
  | exit => "exit"
  | read => "read"
  | write => "write"

/-- Every builtin function. -/
def all : List Builtin :=
  [len, first, last, rest, push, pop, print, input, exit, read, write]

/-- The builtin function with a given name. -/
def ofName? (text : String) : Option Builtin :=
  all.find? fun b => b.name == text

@[simp]
theorem ofName?_name (b : Builtin) : ofName? b.name = some b := by
  cases b <;> decide

end Builtin

/-- The kinds of value. -/
inductive ValueKind where
  | integer | string | boolean | null | ret | error | function | builtin | array | hash
  deriving DecidableEq, Repr, Inhabited

/-- The name of a kind in messages. -/
def ValueKind.name : ValueKind → String
  | integer => "INTEGER"
  | string => "STRING"
  | boolean => "BOOLEAN"
  | null => "NULL"
  | ret => "RETURN"
  | error => "ERROR"
  | function => "FUNCTION"
  | builtin => "BUILTIN"
  | array => "ARRAY"
  | hash => "HASH"

/-- Values. -/
inductive Value where
  | int (n : Int64)
  | str (s : String)
  | bool (b : Bool)
  | null
  | ret (v : Value)
  | error (message : String)
  | func (id : ObjectId)
  | builtin (b : Builtin)
  | array (id : ObjectId)
  | hash (id : ObjectId)
  deriving DecidableEq, Repr, Inhabited

/-- The values under which a hash can hold others. -/
inductive Key where
  | bool (b : Bool)
  | int (n : Int64)
  | str (s : String)
  deriving DecidableEq, Repr, Inhabited

/-- What a pair of a hash is found by: a truth value or a number itself, and
of a text its digest.  So two texts of one digest are found by the same. -/
inductive Fingerprint where
  | bool (b : Bool)
  | int (n : Int64)
  | str (digest : UInt64)
  deriving DecidableEq, Repr, Inhabited

namespace Key

/-- The value that a key is. -/
def value : Key → Value
  | bool b => .bool b
  | int n => .int n
  | str s => .str s

/-- What a pair with this key is found by. -/
def fingerprint [Digest] : Key → Fingerprint
  | bool b => .bool b
  | int n => .int n
  | str s => .str (Digest.ofText s)

/-- The 64 bits that stand for a truth value or a number. -/
def bits? : Key → Option UInt64
  | bool b => some (if b then 1 else 0)
  | int n => some n.toUInt64
  | str _ => none

/-- The order in which keys are listed: truth values, numbers, texts, each
among themselves from the least. -/
def le : Key → Key → Bool
  | bool a, bool b => !a || b
  | bool _, _ => true
  | int _, bool _ => false
  | int a, int b => a ≤ b
  | int _, str _ => true
  | str a, str b => !(b < a)
  | str _, _ => false

end Key

namespace Value

/-- The kind of a value. -/
def kind : Value → ValueKind
  | int _ => .integer
  | str _ => .string
  | bool _ => .boolean
  | null => .null
  | ret _ => .ret
  | error _ => .error
  | func _ => .function
  | builtin _ => .builtin
  | array _ => .array
  | hash _ => .hash

/-- Whether a condition with this value holds: all values but `false` and
`null` count as true. -/
def truthy : Value → Bool
  | bool false | null => false
  | _ => true

/-- Whether a value is `null`. -/
def isNull : Value → Bool
  | null => true
  | _ => false

/-- Whether a value is an error. -/
def isError : Value → Bool
  | error _ => true
  | _ => false

/-- The key that a value is, if it can be one. -/
def key? : Value → Option Key
  | int n => some (.int n)
  | str s => some (.str s)
  | bool b => some (.bool b)
  | _ => none

/-- What a pair is found by whose key is this value, if it can be one. -/
def fingerprint? [Digest] (v : Value) : Option Fingerprint :=
  v.key?.map Key.fingerprint

/-- Whether two values are one and the same: truth values and `null` by
content, arrays, hashes and functions by their place.  Numbers and texts have
no identity. -/
def same : Value → Value → Bool
  | bool a, bool b => a == b
  | null, null => true
  | array i, array j => i == j
  | hash i, hash j => i == j
  | func i, func j => i == j
  | builtin a, builtin b => a == b
  | _, _ => false

/-- A key found in a value is that value. -/
theorem value_of_key? {v : Value} {k : Key} (h : v.key? = some k) : k.value = v := by
  cases v <;> simp [key?] at h <;> subst h <;> rfl

end Value

@[simp]
theorem Key.key?_value (k : Key) : k.value.key? = some k := by
  cases k <;> rfl

end MonkeyLang
