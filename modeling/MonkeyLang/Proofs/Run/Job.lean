import Mathlib.Order.Filter.AtTopBot.Basic
import MonkeyLang.Proofs.Run.Fuel

/-!
# What a run turns to

Evaluating a tree comes down to evaluating its parts, one after the other.  A
job is a tree, or a call, together with the heap and the host that its
evaluation begins with.  Each job turns to jobs for its parts, and a part is
turned to in the heap and on the host that the parts before it have left.

Fuel plays no role here.  A job ends in some way if it does so with every
sufficient amount of fuel.
-/

namespace MonkeyLang

open Filter RunOn

variable {α σ S β γ : Type}

/-- What comes out of a call in which there is an interrupt. -/
def Interrupt.returned : Interrupt → Except Interrupt Value
  | .ret v => .ok v
  | i => .error i

/-- What comes out of a program in which there is an interrupt. -/
def Interrupt.concluded : Interrupt → Except Interrupt Value
  | .ret v => .ok v
  | .error message => .ok (.error message)
  | i => .error i

/-- What a run can be asked to do: each stands for one of the functions that
evaluate trees. -/
inductive Task (α : Type) where
  | expr (scope : ScopeId) (e : Expr α)
  | exprs (scope : ScopeId) (es : List (Expr α))
  | pairs (scope : ScopeId) (ps : List (Expr α × Expr α)) (sofar : Table)
  | stmt (scope : ScopeId) (x : Stmt α)
  | stmts (scope : ScopeId) (xs : List (Stmt α)) (sofar : Value)
  | loop (scope : ScopeId) (c : Expr α) (body : List (Stmt α)) (sofar : Value)
  | apply (callee : Value) (args : List Value)
  | program (scope : ScopeId) (p : Program α)

namespace Task

/-- What comes of a task. -/
abbrev Result : Task α → Type
  | .exprs _ _ => List Value
  | .pairs _ _ _ => Table
  | .expr _ _ | .stmt _ _ | .stmts _ _ _ | .loop _ _ _ _ | .apply _ _ | .program _ _ => Value

/-- Does a task. -/
def run {m : Type → Type} [Digest] [Monad m] [Host m] [Store α σ] (n : Nat) :
    (t : Task α) → RunOn σ m t.Result
  | .expr scope e => Run.expr n scope e
  | .exprs scope es => Run.exprs n scope es
  | .pairs scope ps sofar => Run.pairs n scope ps sofar
  | .stmt scope x => Run.stmt n scope x
  | .stmts scope xs sofar => Run.stmts n scope xs sofar
  | .loop scope c body sofar => Run.loop n scope c body sofar
  | .apply callee args => Run.apply n callee args
  | .program scope p => Run.program n scope p

/-- A task that ends, ends in the same way with more fuel. -/
theorem run_steady [Digest] [Host (StateM S)] [Store α σ] (t : Task α) {n m : Nat} (h : n ≤ m) :
    Approximates (σ := σ) (S := S) (t.run n) (t.run m) := by
  refine approximates_of_le (x := fun n => (t.run n : RunOn σ (StateM S) t.Result)) (fun n => ?_) h
  have hsteady := Run.steadyAt (α := α) (σ := σ) (S := S) n
  cases t with
  | expr scope e => exact hsteady.expr scope e
  | exprs scope es => exact hsteady.exprs scope es
  | pairs scope ps sofar => exact hsteady.pairs scope ps sofar
  | stmt scope x => exact hsteady.stmt scope x
  | stmts scope xs sofar => exact hsteady.stmts scope xs sofar
  | loop scope c body sofar => exact hsteady.loop scope c body sofar
  | apply callee args => exact hsteady.apply callee args
  | program scope p => exact Run.program_steady scope p n.le_succ

/-- How a task ends that is interrupted in its midst: a call turns a return into
its value, and a program turns both a return and an error into its value. -/
def interrupted : (t : Task α) → Interrupt → Except Interrupt t.Result
  | .apply _ _, i => i.returned
  | .program _ _, i => i.concluded
  | _, i => .error i

end Task

/-- A task, and the heap and the state of the host that it begins with. -/
structure Job (α S : Type) where
  task : Task α
  heap : Heap α
  host : S

namespace Job

variable [Digest] [Host (StateM S)]

/-- Where a job ends with `n` units of fuel. -/
def ending (c : Job α S) (n : Nat) : Ending (Heap α) S c.task.Result :=
  (c.task.run n).ending c.heap c.host

/-- With every sufficient amount of fuel, a job has the outcome `o` and leaves
the heap `h` and the host in the state `s`. -/
def Ends (c : Job α S) (o : Except Interrupt c.task.Result) (h : Heap α) (s : S) : Prop :=
  ∀ᶠ n in atTop, c.ending n = ⟨some o, h, s⟩

section

variable {c : Job α S} {o o' : Except Interrupt c.task.Result} {h h' : Heap α} {s s' : S}

theorem Ends.of_ending {n : Nat} (hn : c.ending n = ⟨some o, h, s⟩) : c.Ends o h s := by
  refine eventually_atTop.mpr ⟨n, fun m hm => ?_⟩
  have hsome : (c.ending n).outcome ≠ none := by
    rw [hn]
    exact Option.some_ne_none o
  exact (c.task.run_steady hm c.heap c.host hsome).trans hn

theorem Ends.exists_succ (hc : c.Ends o h s) : ∃ n, c.ending (n + 1) = ⟨some o, h, s⟩ := by
  obtain ⟨n, hn⟩ := eventually_atTop.mp hc
  exact ⟨n, hn (n + 1) n.le_succ⟩

/-- A job ends in one way only. -/
theorem Ends.unique (hc : c.Ends o h s) (hc' : c.Ends o' h' s') : o = o' ∧ h = h' ∧ s = s' := by
  obtain ⟨n, hn, hn'⟩ := (hc.and hc').exists
  have heq := hn.symm.trans hn'
  exact ⟨Option.some.inj (congrArg Ending.outcome heq), congrArg Ending.state heq,
    congrArg Ending.host heq⟩

end

/-- The run of the first job turns to the second as to one of its parts: what
comes before this part has been done, and has ended with a value. -/
inductive TurnsTo : Job α S → Job α S → Prop
  | operand {scope t op r h s} :
      TurnsTo ⟨.expr scope (.unary t op r), h, s⟩ ⟨.expr scope r, h, s⟩
  | left {scope t op l r h s} :
      TurnsTo ⟨.expr scope (.binary t op l r), h, s⟩ ⟨.expr scope l, h, s⟩
  | right {scope t op l r h s v h' s'} (hl : Ends ⟨.expr scope l, h, s⟩ (.ok v) h' s') :
      TurnsTo ⟨.expr scope (.binary t op l r), h, s⟩ ⟨.expr scope r, h', s'⟩
  | assigned {scope t x e h s} :
      TurnsTo ⟨.expr scope (.assign t x e), h, s⟩ ⟨.expr scope e, h, s⟩
  | condition {scope t c b alt h s} :
      TurnsTo ⟨.expr scope (.cond t c b alt), h, s⟩ ⟨.expr scope c, h, s⟩
  | consequence {scope t c b alt h s v h' s'}
      (hc : Ends ⟨.expr scope c, h, s⟩ (.ok v) h' s') (hv : v.truthy = true) :
      TurnsTo ⟨.expr scope (.cond t c b alt), h, s⟩ ⟨.stmts scope b.statements .null, h', s'⟩
  | alternative {scope t c b b' h s v h' s'}
      (hc : Ends ⟨.expr scope c, h, s⟩ (.ok v) h' s') (hv : v.truthy = false) :
      TurnsTo ⟨.expr scope (.cond t c b (some b')), h, s⟩
        ⟨.stmts scope b'.statements .null, h', s'⟩
  | rounds {scope t c b h s} :
      TurnsTo ⟨.expr scope (.loop t c b), h, s⟩ ⟨.loop scope c b.statements .null, h, s⟩
  | callee {scope t e es h s} :
      TurnsTo ⟨.expr scope (.call t e es), h, s⟩ ⟨.expr scope e, h, s⟩
  | arguments {scope t e es h s f h' s'} (he : Ends ⟨.expr scope e, h, s⟩ (.ok f) h' s') :
      TurnsTo ⟨.expr scope (.call t e es), h, s⟩ ⟨.exprs scope es, h', s'⟩
  | application {scope t e es h s f h' s' vs h'' s''}
      (he : Ends ⟨.expr scope e, h, s⟩ (.ok f) h' s')
      (hes : Ends ⟨.exprs scope es, h', s'⟩ (.ok vs) h'' s'') :
      TurnsTo ⟨.expr scope (.call t e es), h, s⟩ ⟨.apply f vs, h'', s''⟩
  | elements {scope t es h s} :
      TurnsTo ⟨.expr scope (.array t es), h, s⟩ ⟨.exprs scope es, h, s⟩
  | indexed {scope t l i h s} :
      TurnsTo ⟨.expr scope (.index t l i), h, s⟩ ⟨.expr scope l, h, s⟩
  | index {scope t l i h s v h' s'} (hl : Ends ⟨.expr scope l, h, s⟩ (.ok v) h' s') :
      TurnsTo ⟨.expr scope (.index t l i), h, s⟩ ⟨.expr scope i, h', s'⟩
  | members {scope t ps h s} :
      TurnsTo ⟨.expr scope (.hash t ps), h, s⟩ ⟨.pairs scope ps Table.empty, h, s⟩
  | head {scope e es h s} :
      TurnsTo ⟨.exprs scope (e :: es), h, s⟩ ⟨.expr scope e, h, s⟩
  | tail {scope e es h s v h' s'} (he : Ends ⟨.expr scope e, h, s⟩ (.ok v) h' s') :
      TurnsTo ⟨.exprs scope (e :: es), h, s⟩ ⟨.exprs scope es, h', s'⟩
  | key {scope k e ps sofar h s} :
      TurnsTo ⟨.pairs scope ((k, e) :: ps) sofar, h, s⟩ ⟨.expr scope k, h, s⟩
  | value {scope k e ps sofar h s kv key h' s'}
      (hk : Ends ⟨.expr scope k, h, s⟩ (.ok kv) h' s') (hkey : kv.key? = some key) :
      TurnsTo ⟨.pairs scope ((k, e) :: ps) sofar, h, s⟩ ⟨.expr scope e, h', s'⟩
  | laterPairs {scope k e ps sofar h s kv key h' s' v h'' s''}
      (hk : Ends ⟨.expr scope k, h, s⟩ (.ok kv) h' s') (hkey : kv.key? = some key)
      (he : Ends ⟨.expr scope e, h', s'⟩ (.ok v) h'' s'') :
      TurnsTo ⟨.pairs scope ((k, e) :: ps) sofar, h, s⟩
        ⟨.pairs scope ps (sofar.insert key v), h'', s''⟩
  | declared {scope kind t x e h s} :
      TurnsTo ⟨.stmt scope (.declare kind t x e), h, s⟩ ⟨.expr scope e, h, s⟩
  | returned {scope t e h s} :
      TurnsTo ⟨.stmt scope (.ret t e), h, s⟩ ⟨.expr scope e, h, s⟩
  | expression {scope t e h s} :
      TurnsTo ⟨.stmt scope (.expr t e), h, s⟩ ⟨.expr scope e, h, s⟩
  | statement {scope x xs sofar h s} :
      TurnsTo ⟨.stmts scope (x :: xs) sofar, h, s⟩ ⟨.stmt scope x, h, s⟩
  | laterStatements {scope x xs sofar h s v h' s'}
      (hx : Ends ⟨.stmt scope x, h, s⟩ (.ok v) h' s') :
      TurnsTo ⟨.stmts scope (x :: xs) sofar, h, s⟩ ⟨.stmts scope xs v, h', s'⟩
  | loopCondition {scope c body sofar h s} :
      TurnsTo ⟨.loop scope c body sofar, h, s⟩ ⟨.expr scope c, h, s⟩
  | round {scope c body sofar h s v h' s'}
      (hc : Ends ⟨.expr scope c, h, s⟩ (.ok v) h' s') (hv : v.truthy = true) :
      TurnsTo ⟨.loop scope c body sofar, h, s⟩ ⟨.stmts scope body .null, h', s'⟩
  | laterRounds {scope c body sofar h s v h' s' w h'' s''}
      (hc : Ends ⟨.expr scope c, h, s⟩ (.ok v) h' s') (hv : v.truthy = true)
      (hbody : Ends ⟨.stmts scope body .null, h', s'⟩ (.ok w) h'' s'') :
      TurnsTo ⟨.loop scope c body sofar, h, s⟩ ⟨.loop scope c body w, h'', s''⟩

/-- The run of the first job enters the body of a function, or begins with the
statements of a program: what is returned from the second does not go on as a
return. -/
inductive Enters : Job α S → Job α S → Prop
  | body {id f args h s} (hf : h.closure? id = some f) (hlen : f.params.length = args.length) :
      Enters ⟨.apply (.func id) args, h, s⟩
        ⟨.stmts (h.enter f.scope f.params args).1 f.body.statements .null,
          (h.enter f.scope f.params args).2, s⟩
  | program {scope p h s} :
      Enters ⟨.program scope p, h, s⟩ ⟨.stmts scope p.statements .null, h, s⟩

/-- The second job is begun in the midst of the first, inside the same body of a
function. -/
def Surrounds : Job α S → Job α S → Prop :=
  Relation.ReflTransGen TurnsTo

/-- The second job is begun in the midst of the first, perhaps inside of calls. -/
def ComesTo : Job α S → Job α S → Prop :=
  Relation.ReflTransGen fun c d => c.TurnsTo d ∨ c.Enters d

end Job

end MonkeyLang
