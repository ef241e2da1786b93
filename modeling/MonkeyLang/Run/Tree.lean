import MonkeyLang.Run.Builtin
import MonkeyLang.Run.Operator

/-!
# Running trees

The evaluation of expressions, statements and programs in a scope.  Parts are
evaluated from left to right, and the first interrupt stops everything around
it; a call turns a return into its value.

The first argument of these functions is the fuel of the run.  It bounds the
depth of evaluation and the number of rounds of each loop, and has no other
effect: enough of it is always enough.
-/

namespace MonkeyLang

namespace Run

variable {α σ : Type} {m : Type → Type} [Digest] [Monad m] [Host m] [Store α σ]

/-- The value of a name: what it is bound to, or else a builtin function. -/
@[inline]
def name (scope : ScopeId) (x : String) : RunOn σ m Value := do
  match ← see (·.lookup scope x) with
  | some v => settle v
  | none =>
    match Builtin.ofName? x with
    | some b => return .builtin b
    | none => raise (.unknownName x)

mutual

/-- Evaluates an expression. -/
@[specialize]
def expr : Nat → ScopeId → Expr α → RunOn σ m Value
  | 0, _, _ => outOfFuel
  | n + 1, scope, e =>
    match e with
    | .ident id => name scope id.name
    | .int _ k => return .int k
    | .str _ s => return .str s
    | .bool _ b => return .bool b
    | .unary _ op r => do
      let v ← expr n scope r
      ofExcept (op.apply v)
    | .binary _ op l r => do
      let v ← expr n scope l
      let w ← expr n scope r
      ofExcept (op.apply v w)
    | .assign _ x value => do
      let v ← expr n scope value
      rebind (·.assign scope x.name v)
      return v
    | .cond _ c b alt => do
      let v ← expr n scope c
      if v.truthy then stmts n scope b.statements .null
      else
        match alt with
        | some b' => stmts n scope b'.statements .null
        | none => return .null
    | .loop _ c b => loop n scope c b.statements .null
    | .func _ params body => do
      let f := Closure.mk params body scope
      let id ← change (·.alloc (.func f))
      return .func id
    | .call _ callee args => do
      let f ← expr n scope callee
      let vs ← exprs n scope args
      let v ← apply n f vs
      settle v
    | .array _ es => do
      let vs ← exprs n scope es
      Builtin.newArray vs
    | .index _ l i => do
      let v ← expr n scope l
      let w ← expr n scope i
      let found ← see (·.index v w)
      let x ← ofExcept found
      settle x
    | .hash _ ps => do
      let table ← pairs n scope ps Table.empty
      let id ← change (·.alloc (.hash table))
      return .hash id
termination_by structural n => n

/-- Evaluates expressions from left to right. -/
@[specialize]
def exprs : Nat → ScopeId → List (Expr α) → RunOn σ m (List Value)
  | 0, _, _ => outOfFuel
  | n + 1, scope, es =>
    match es with
    | [] => return []
    | e :: rest => do
      let v ← expr n scope e
      let vs ← exprs n scope rest
      return v :: vs
termination_by structural n => n

/-- Evaluates the pairs of a hash in order; of keys with one fingerprint the
last counts.  A key is checked before its value is evaluated. -/
@[specialize]
def pairs : Nat → ScopeId → List (Expr α × Expr α) → Table → RunOn σ m Table
  | 0, _, _, _ => outOfFuel
  | n + 1, scope, ps, sofar =>
    match ps with
    | [] => return sofar
    | (k, e) :: rest => do
      let kv ← expr n scope k
      match kv.key? with
      | none => raise (.notHashable kv.kind)
      | some key =>
        let v ← expr n scope e
        pairs n scope rest (sofar.insert key v)
termination_by structural n => n

/-- Runs a statement. -/
@[specialize]
def stmt : Nat → ScopeId → Stmt α → RunOn σ m Value
  | 0, _, _ => outOfFuel
  | n + 1, scope, s =>
    match s with
    | .declare kind _ x value => do
      let v ← expr n scope value
      rebind (·.declare kind scope x.name v)
      return .null
    | .ret _ value => do
      let v ← expr n scope value
      interrupt (.ret v)
    | .expr _ e => expr n scope e
termination_by structural n => n

/-- Runs statements in order.  The value is that of the last of them, or
`sofar` where there is none. -/
@[specialize]
def stmts : Nat → ScopeId → List (Stmt α) → Value → RunOn σ m Value
  | 0, _, _, _ => outOfFuel
  | n + 1, scope, ss, sofar =>
    match ss with
    | [] => return sofar
    | s :: rest => do
      let v ← stmt n scope s
      stmts n scope rest v
termination_by structural n => n

/-- Runs the body of a loop as long as its condition holds.  The value is that
of the last round, or `sofar` where there is none. -/
@[specialize]
def loop : Nat → ScopeId → Expr α → List (Stmt α) → Value → RunOn σ m Value
  | 0, _, _, _, _ => outOfFuel
  | n + 1, scope, c, body, sofar => do
    let v ← expr n scope c
    if v.truthy then
      let w ← stmts n scope body .null
      loop n scope c body w
    else return sofar
termination_by structural n => n

/-- Calls a function.  The body of a function runs in a new scope inside the
one in which the function was written. -/
@[specialize]
def apply : Nat → Value → List Value → RunOn σ m Value
  | 0, _, _ => outOfFuel
  | n + 1, callee, args =>
    match callee with
    | .func id => do
      match ← see (·.closure? id) with
      | none => raise (.notCallable .function)
      | some f =>
        if f.params.length = args.length then
          let scope ← change (·.enter f.scope f.params args)
          returned (stmts n scope f.body.statements .null)
        else raise (.parameterCount f.params.length args.length)
    | .builtin b => b.call args
    | v => raise (.notCallable v.kind)
termination_by structural n => n

end

/-- Runs a program in a scope.  A return ends it with the value returned, and
an error with the error. -/
@[specialize]
def program (n : Nat) (scope : ScopeId) (p : Program α) : RunOn σ m Value :=
  reported (returned (stmts n scope p.statements .null))

end Run

end MonkeyLang
