import MonkeyLang.Store.Table

/-!
# Heaps

A heap holds objects (arrays, hashes and functions) and scopes.  Both are
known by their places and are only ever added at the end, so a smaller place
is an older one.  An object refers to older objects only, and the scope around
a scope is an older one; the scope that a function belongs to may well refer
back to the function.

A scope has a map of variables and a map of constants.  Before a name is put
into one of them, it is looked for in both (`Heap.declare`); assigning puts a
name into the map in which it was found.  The operations on scopes go by the
scopes outward from a given one (`Heap.chain`): the first of them that binds a
name decides.

Functions keep their parameters and bodies with the annotations of the program
that made them.  No operation looks at an annotation, so there are none unless
something else is said.
-/

namespace MonkeyLang

/-- A function that a program has made: its parameters, its body, and the
scope in which it was written. -/
structure Closure (α : Type := Unit) where
  idents : List (Ident α)
  body : Block α
  scope : ScopeId

/-- The names of the parameters of a function. -/
def Closure.params {α : Type} (f : Closure α) : List String :=
  f.idents.map (·.name)

/-- The objects in a heap. -/
inductive Object (α : Type := Unit) where
  | array (elements : List Value)
  | hash (table : Table)
  | func (f : Closure α)

/-- What a name is bound to, and whether it can be assigned to. -/
structure Binding where
  kind : BindingKind
  value : Value
  deriving DecidableEq, Repr, Inhabited

/-- A scope: its variables, its constants, and the scope around it.  Nothing here
keeps a name from being in both maps; that is up to the operations. -/
structure Scope where
  vars : Assoc String Value
  consts : Assoc String Value
  outer : Option ScopeId
  deriving DecidableEq, Repr, Inhabited

namespace Scope

/-- A scope without bindings. -/
def empty (outer : Option ScopeId) : Scope :=
  ⟨Assoc.empty, Assoc.empty, outer⟩

/-- The bindings of one kind. -/
def bindings (scope : Scope) : BindingKind → Assoc String Value
  | .var => scope.vars
  | .val => scope.consts

/-- The scope with a name in the map of the kind of a binding.  The other map is
left as it is. -/
def bind (scope : Scope) (x : String) : Binding → Scope
  | ⟨.var, v⟩ => { scope with vars := scope.vars.insert x v }
  | ⟨.val, v⟩ => { scope with consts := scope.consts.insert x v }

@[simp]
theorem outer_bind (scope : Scope) (x : String) (b : Binding) :
    (scope.bind x b).outer = scope.outer := by
  obtain ⟨_ | _, v⟩ := b <;> rfl

theorem find?_bindings_bind (scope : Scope) (x : String) (b : Binding) (kind : BindingKind)
    (y : String) :
    ((scope.bind x b).bindings kind).find? y =
      if x = y ∧ b.kind = kind then some b.value else (scope.bindings kind).find? y := by
  obtain ⟨_ | _, v⟩ := b <;> cases kind <;> simp [bind, bindings, Assoc.find?_insert]

end Scope

/-- Objects and scopes. -/
structure Heap (α : Type := Unit) where
  objects : Array (Object α)
  scopes : Array Scope

/-- Why a name cannot be declared or assigned to. -/
inductive BindingError where
  | alreadyConstant (name : String)
  | alreadyVariable (name : String)
  | constant (name : String)
  | unresolved (name : String)
  deriving DecidableEq, Repr

/-- The message of a binding error. -/
def BindingError.message : BindingError → String
  | alreadyConstant name => "identifier already declared as constant: " ++ name
  | alreadyVariable name => "identifier already declared as variable: " ++ name
  | constant name => "cannot assign to constant: " ++ name
  | unresolved name => "cannot resolve identifier: " ++ name

namespace Heap

variable {α : Type}

/-- The heap that a program starts with: no objects and one empty scope. -/
def initial : Heap α :=
  ⟨#[], #[.empty none]⟩

/-- The outermost scope. -/
def globalScope : ScopeId := 0

/-! ## Objects -/

/-- The heap with one more object, and the place of it. -/
def alloc (h : Heap α) (o : Object α) : ObjectId × Heap α :=
  (h.objects.size, { h with objects := h.objects.push o })

/-- The elements of an array. -/
def elements (h : Heap α) (id : ObjectId) : List Value :=
  match h.objects[id]? with
  | some (.array es) => es
  | _ => []

/-- The pairs of a hash. -/
def table (h : Heap α) (id : ObjectId) : Table :=
  match h.objects[id]? with
  | some (.hash t) => t
  | _ => Table.empty

/-- The function at a place. -/
def closure? (h : Heap α) (id : ObjectId) : Option (Closure α) :=
  match h.objects[id]? with
  | some (.func f) => some f
  | _ => none

/-- An array without its last element; any other object as it is. -/
def withoutLast : Object α → Object α
  | .array es => .array es.dropLast
  | o => o

/-- Takes the last element off an array. -/
def pop (h : Heap α) (id : ObjectId) : Option Value × Heap α :=
  match (h.elements id).getLast? with
  | none => (none, h)
  | some v => (some v, { h with objects := h.objects.modify id withoutLast })

/-! ## Scopes -/

/-- The heap with one more scope, and the place of it. -/
def addScope (h : Heap α) (scope : Scope) : ScopeId × Heap α :=
  (h.scopes.size, { h with scopes := h.scopes.push scope })

/-- A new empty scope inside `outer`. -/
def enclose (h : Heap α) (outer : ScopeId) : ScopeId × Heap α :=
  h.addScope (.empty (some outer))

/-- At most `n` scopes from `s` outward. -/
def outward (h : Heap α) : Nat → ScopeId → List ScopeId
  | 0, _ => []
  | n + 1, s =>
    match h.scopes[s]? with
    | none => []
    | some scope =>
      match scope.outer with
      | none => [s]
      | some o => s :: outward h n o

/-- The scopes from `s` outward.  Each is older than the one before it, so
there are no more than `s + 1`. -/
def chain (h : Heap α) (s : ScopeId) : List ScopeId :=
  h.outward (s + 1) s

/-- The value that a name has among the bindings of one kind in the scope `s`
itself. -/
def bound? (h : Heap α) (s : ScopeId) (kind : BindingKind) (x : String) : Option Value :=
  match h.scopes[s]? with
  | none => none
  | some scope => (scope.bindings kind).find? x

/-- What a name is bound to in the scope `s` itself.  It is looked for among the
variables first. -/
def binding? (h : Heap α) (s : ScopeId) (x : String) : Option Binding :=
  match h.bound? s .var x with
  | some v => some ⟨.var, v⟩
  | none => (h.bound? s .val x).map (⟨.val, ·⟩)

/-- The first of some scopes that binds a name, with the binding. -/
def holderIn (h : Heap α) (x : String) : List ScopeId → Option (ScopeId × Binding)
  | [] => none
  | s :: rest =>
    match h.binding? s x with
    | some b => some (s, b)
    | none => holderIn h x rest

/-- The first scope from `s` outward that binds a name, with the binding. -/
def holder? (h : Heap α) (s : ScopeId) (x : String) : Option (ScopeId × Binding) :=
  h.holderIn x (h.chain s)

/-- The value of a name as seen from the scope `s`. -/
def lookup (h : Heap α) (s : ScopeId) (x : String) : Option Value :=
  (h.holder? s x).map (·.2.value)

/-- Whether some scope from `s` outward binds a name in the given way. -/
def existsBinding (h : Heap α) (s : ScopeId) (kind : BindingKind) (x : String) : Bool :=
  (h.chain s).any fun t => (h.bound? t kind x).isSome

/-- The heap in which the scope `s` binds a name. -/
def bind (h : Heap α) (s : ScopeId) (x : String) (b : Binding) : Heap α :=
  { h with scopes := h.scopes.modify s (·.bind x b) }

/-- Binding a name in a scope changes that name in one map of that scope and
nothing else. -/
theorem bound?_bind {h : Heap α} {s : ScopeId} (hs : s < h.scopes.size) (x : String)
    (b : Binding) (t : ScopeId) (kind : BindingKind) (y : String) :
    (h.bind s x b).bound? t kind y =
      if s = t ∧ x = y ∧ b.kind = kind then some b.value else h.bound? t kind y := by
  simp only [bound?, bind, Array.getElem?_modify]
  by_cases hst : s = t
  · subst hst
    simp only [if_true, Array.getElem?_eq_getElem hs, Option.map_some,
      Scope.find?_bindings_bind, true_and]
  · simp [hst]

/-- Declares a name in the scope `s`.  A variable must not be a constant there
already, but it may be a variable; a constant must be neither. -/
def declare (h : Heap α) (kind : BindingKind) (s : ScopeId) (x : String) (v : Value) :
    Except BindingError Unit × Heap α :=
  match kind with
  | .var =>
    if (h.bound? s .val x).isSome then (.error (.alreadyConstant x), h)
    else (.ok (), h.bind s x ⟨.var, v⟩)
  | .val =>
    if (h.bound? s .var x).isSome then (.error (.alreadyVariable x), h)
    else if (h.bound? s .val x).isSome then (.error (.constant x), h)
    else (.ok (), h.bind s x ⟨.val, v⟩)

/-- A new scope inside `outer` in which parameters are declared one after the other
as variables with the values of arguments.  As there are no constants in the new
scope, none is refused. -/
def enter (h : Heap α) (outer : ScopeId) (params : List String) (args : List Value) :
    ScopeId × Heap α :=
  let entered := h.enclose outer
  (entered.1, (params.zip args).foldl
    (fun h p => (h.declare .var entered.1 p.1 p.2).2) entered.2)

/-- A name is declared as a variable if it is not a constant. -/
theorem declare_variable {h : Heap α} {s : ScopeId} {x : String} (hval : h.bound? s .val x = none)
    (v : Value) : h.declare .var s x v = (.ok (), h.bind s x ⟨.var, v⟩) := by
  simp [declare, hval]

theorem bind_addScope (h : Heap α) (scope : Scope) (x : String) (b : Binding) :
    (h.addScope scope).2.bind h.scopes.size x b = (h.addScope (scope.bind x b)).2 := by
  simp only [bind, addScope, Heap.mk.injEq, true_and]
  refine Array.ext_getElem? fun t => ?_
  simp only [Array.getElem?_modify, Array.getElem?_push]
  by_cases ht : t = h.scopes.size
  · subst ht
    simp
  · simp [ht, Ne.symm ht]

/-- The scope that is entered has the parameters for its variables, and no constants. -/
theorem enter_eq (h : Heap α) (outer : ScopeId) (params : List String) (args : List Value) :
    h.enter outer params args =
      h.addScope ⟨Assoc.ofList (params.zip args), Assoc.empty, some outer⟩ := by
  have hdeclared (ps : List (String × Value)) (vars : Assoc String Value) :
      ps.foldl (fun h' p => (h'.declare .var h.scopes.size p.1 p.2).2)
          (h.addScope ⟨vars, Assoc.empty, some outer⟩).2 =
        (h.addScope ⟨ps.foldl (fun m p => m.insert p.1 p.2) vars, Assoc.empty,
          some outer⟩).2 := by
    induction ps generalizing vars with
    | nil => rfl
    | cons p ps ih =>
        have hval : (h.addScope ⟨vars, Assoc.empty, some outer⟩).2.bound? h.scopes.size .val
            p.1 = none := by
          simp [bound?, addScope, Scope.bindings]
        rw [List.foldl_cons, declare_variable hval, bind_addScope]
        exact ih (vars.insert p.1 p.2)
  exact congrArg (Prod.mk h.scopes.size) (hdeclared (params.zip args) Assoc.empty)

/-- Assigns to a name in the first scope from `s` outward that binds it. -/
def assign (h : Heap α) (s : ScopeId) (x : String) (v : Value) :
    Except BindingError Unit × Heap α :=
  match h.holder? s x with
  | none => (.error (.unresolved x), h)
  | some (_, ⟨.val, _⟩) => (.error (.constant x), h)
  | some (t, ⟨.var, _⟩) => (.ok (), h.bind t x ⟨.var, v⟩)

end Heap

end MonkeyLang
