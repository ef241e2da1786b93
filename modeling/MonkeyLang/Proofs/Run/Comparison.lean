import MonkeyLang.Proofs.Run.Ending
import MonkeyLang.Proofs.Store.Map

/-!
# Comparing runs

Two runs are compared, perhaps with states of different kinds and on different hosts.  A
comparison that goes along with everything that runs are put together of is a congruence.
Then a tree and the tree with its annotations changed compare: this is shown once, by
induction on the fuel, for all congruences.
-/

namespace MonkeyLang

variable {α α' σ τ S T β γ : Type}

/-- A way of comparing runs, whatever comes of them. -/
abbrev Comparison (σ τ S T : Type) :=
  (β : Type) → RunOn σ (StateM S) β → RunOn τ (StateM T) β → Prop

/-- A comparison that goes along with the ways of putting runs together and with what is
done to the heap and on the host, but for the end of the process. -/
structure Congruence [Host (StateM S)] [Host (StateM T)] [Store α σ] [Store α' τ] (f : α → α')
    (R : Comparison σ τ S T) : Prop where
  pure : ∀ {β : Type} (v : β), R β (pure v) (pure v)
  outOfFuel : ∀ {β : Type}, R β Run.outOfFuel Run.outOfFuel
  error : ∀ {β : Type} (message : String),
    R β (Run.interrupt (.error message)) (Run.interrupt (.error message))
  ret : ∀ {β : Type} (v : Value), R β (Run.interrupt (.ret v)) (Run.interrupt (.ret v))
  bind : ∀ {β γ : Type} {x : RunOn σ (StateM S) β} {y : RunOn τ (StateM T) β}
    {k : β → RunOn σ (StateM S) γ} {l : β → RunOn τ (StateM T) γ},
    R β x y → (∀ v, R γ (k v) (l v)) → R γ (x >>= k) (y >>= l)
  returned : ∀ {x : RunOn σ (StateM S) Value} {y : RunOn τ (StateM T) Value},
    R Value x y → R Value (Run.returned x) (Run.returned y)
  reported : ∀ {x : RunOn σ (StateM S) Value} {y : RunOn τ (StateM T) Value},
    R Value x y → R Value (Run.reported x) (Run.reported y)
  see : ∀ {β : Type} {g : Heap α → β} {g' : Heap α' → β}, (∀ h, g' (h.map f) = g h) →
    R β (Run.see g) (Run.see g')
  closure : ∀ {β : Type} (id : ObjectId) {k : Option (Closure α) → RunOn σ (StateM S) β}
    {l : Option (Closure α') → RunOn τ (StateM T) β},
    (∀ c, R β (k c) (l (c.map (Closure.map f)))) →
    R β (Run.see (Heap.closure? · id) >>= k) (Run.see (Heap.closure? · id) >>= l)
  change : ∀ {β : Type} {g : Heap α → β × Heap α} {g' : Heap α' → β × Heap α'},
    (∀ h, g' (h.map f) = (g h).map id (Heap.map f)) → R β (Run.change g) (Run.change g')
  write : ∀ text, R Unit (Run.onHost (Host.write text)) (Run.onHost (Host.write text))
  readLine : R (Option String) (Run.onHost Host.readLine) (Run.onHost Host.readLine)
  readFile : ∀ path, R _ (Run.onHost (Host.readFile path)) (Run.onHost (Host.readFile path))
  writeFile : ∀ path contents,
    R _ (Run.onHost (Host.writeFile path contents)) (Run.onHost (Host.writeFile path contents))

/-- A comparison that goes along with all that runs are put together of. -/
structure FullCongruence [Host (StateM S)] [Host (StateM T)] [Store α σ] [Store α' τ] (f : α → α')
    (R : Comparison σ τ S T) : Prop extends Congruence f R where
  exitWith : ∀ code, R Value (Builtin.exitWith code) (Builtin.exitWith code)

namespace Builtin

/-- The code with which a call of `exit` asks for the end of the process, unless the call is
refused. -/
def exitCode : List Value → Except RuntimeError Int32
  | [] => .ok 0
  | [.int code] =>
    if -0x80000000 ≤ code.toInt ∧ code.toInt < 0x80000000 then .ok code.toInt32
    else .error (.exitCodeOutOfRange code)
  | [v] => .error (.badArgument .exit .integer v.kind)
  | args => .error (.argumentCount args.length (arity .exit))

theorem call_exit [Host (StateM S)] [Store α σ] (args : List Value) :
    (Builtin.exit.call args : RunOn σ (StateM S) Value) =
      match exitCode args with
      | .ok code => exitWith code
      | .error e => Run.raise e := by
  match args with
  | [] => rfl
  | [.int n] =>
      rw [call, exitCode]
      by_cases hrange : -0x80000000 ≤ n.toInt ∧ n.toInt < 0x80000000
      · rw [if_pos hrange, if_pos hrange]
      · rw [if_neg hrange, if_neg hrange]
  | [.str _] | [.bool _] | [.null] | [.func _] | [.builtin _] | [.array _] | [.hash _]
  | [.error _] | [.ret _] => rfl
  | v :: _ :: _ => cases v <;> rfl

end Builtin

namespace Congruence

variable [Host (StateM S)] [Host (StateM T)] [Store α σ] [Store α' τ] {f : α → α'}
  {R : Comparison σ τ S T}

section

variable (hR : Congruence f R)

include hR

theorem ofExcept (r : Except RuntimeError β) : R β (Run.ofExcept r) (Run.ofExcept r) := by
  cases r with
  | ok v => exact hR.pure v
  | error e => exact hR.error _

theorem settle (v : Value) : R Value (Run.settle v) (Run.settle v) := by
  cases v with
  | error message => exact hR.error message
  | ret v => exact hR.ret v
  | _ => exact hR.pure _

theorem rebind {g : Heap α → Except BindingError Unit × Heap α}
    {g' : Heap α' → Except BindingError Unit × Heap α'}
    (h : ∀ hp, g' (hp.map f) = (g hp).map id (Heap.map f)) :
    R Unit (Run.rebind g) (Run.rebind g') := by
  refine hR.bind (hR.change h) fun r => ?_
  cases r with
  | ok => exact hR.pure _
  | error e => exact hR.error _

theorem name (scope : ScopeId) (x : String) : R Value (Run.name scope x) (Run.name scope x) := by
  refine hR.bind (hR.see fun h => h.lookup_map f scope x) fun found => ?_
  cases found with
  | some v => exact hR.settle v
  | none =>
      cases Builtin.ofName? x with
      | some b => exact hR.pure _
      | none => exact hR.error _

/-! ## Builtin functions -/

theorem elementsOf (b : Builtin) (v : Value) :
    R (List Value) (Builtin.elementsOf b v) (Builtin.elementsOf b v) := by
  cases v with
  | array id =>
      change R _ (Run.see (Heap.elements · id)) (Run.see (Heap.elements · id))
      exact hR.see fun h => h.elements_map f id
  | _ => exact hR.error _

theorem textOf (b : Builtin) (v : Value) : R String (Builtin.textOf b v) (Builtin.textOf b v) := by
  cases v with
  | str s => exact hR.pure s
  | _ => exact hR.error _

theorem newArray (es : List Value) : R Value (Builtin.newArray es) (Builtin.newArray es) :=
  hR.bind (hR.change fun h => h.alloc_map f (.array es)) fun _ => hR.pure _

theorem length (v : Value) : R Value (Builtin.length v) (Builtin.length v) := by
  cases v with
  | str s => exact hR.pure _
  | array id => exact hR.bind (hR.see fun h => h.elements_map f id) fun _ => hR.pure _
  | _ => exact hR.error _

theorem popFrom (v : Value) : R Value (Builtin.popFrom v) (Builtin.popFrom v) := by
  cases v with
  | array id =>
      refine hR.bind (hR.change fun h => h.pop_map f id) fun last => ?_
      cases last with
      | some v => exact hR.pure v
      | none => exact hR.error _
  | _ => exact hR.error _

theorem printAll (vs : List Value) : R Unit (Builtin.printAll vs) (Builtin.printAll vs) := by
  induction vs with
  | nil => exact hR.pure _
  | cons v vs ih =>
      refine hR.bind (hR.see fun h => h.display_map f v) fun text => ?_
      exact hR.bind (hR.write _) fun _ => ih

theorem readInput : R Value Builtin.readLine Builtin.readLine := by
  refine hR.bind hR.readLine fun line => ?_
  cases line <;> exact hR.pure _

theorem call_of_ne_exit {b : Builtin} (hb : b ≠ .exit) (args : List Value) :
    R Value (b.call args) (b.call args) := by
  induction b, args using Builtin.call_cases with
  | len v => exact hR.length v
  | first v | last v => exact hR.bind (hR.elementsOf _ v) fun _ => hR.pure _
  | rest v =>
      refine hR.bind (hR.elementsOf _ v) fun es => ?_
      cases es with
      | nil => exact hR.pure _
      | cons e tail => exact hR.newArray tail
  | push v x => exact hR.bind (hR.elementsOf _ v) fun es => hR.newArray _
  | pop v => exact hR.popFrom v
  | print vs => exact hR.bind (hR.printAll vs) fun _ => hR.pure _
  | input => exact hR.readInput
  | prompt v =>
      refine hR.bind (hR.see fun h => h.display_map f v) fun text => ?_
      exact hR.bind (hR.write _) fun _ => hR.readInput
  | exit | code v => exact absurd rfl hb
  | read v =>
      refine hR.bind (hR.textOf _ v) fun path => ?_
      refine hR.bind (hR.readFile path) fun contents => ?_
      cases contents with
      | ok => exact hR.pure _
      | error => exact hR.error _
  | write v x =>
      refine hR.bind (hR.textOf _ v) fun path => ?_
      refine hR.bind (hR.see fun h => h.display_map f x) fun contents => ?_
      refine hR.bind (hR.writeFile path contents) fun done => ?_
      cases done with
      | ok => exact hR.pure _
      | error => exact hR.error _
  | refused b args hcall =>
      rw [hcall, hcall]
      exact hR.error _

end

end Congruence

namespace FullCongruence

variable [Host (StateM S)] [Host (StateM T)] [Store α σ] [Store α' τ] {f : α → α'}
  {R : Comparison σ τ S T}

theorem call (hR : FullCongruence f R) (b : Builtin) (args : List Value) :
    R Value (b.call args) (b.call args) := by
  by_cases hb : b = .exit
  · subst hb
    rw [Builtin.call_exit, Builtin.call_exit]
    cases Builtin.exitCode args with
    | ok code => exact hR.exitWith code
    | error e => exact hR.error _
  · exact hR.call_of_ne_exit hb args

/-! ## Trees -/

/-- With `n` units of fuel, trees compare with the trees with other annotations. -/
structure UpTo [Digest] [Host (StateM S)] [Host (StateM T)] [Store α σ] [Store α' τ] (f : α → α')
    (R : Comparison σ τ S T) (n : Nat) : Prop where
  expr : ∀ (scope : ScopeId) (e : Expr α),
    R Value (Run.expr n scope e) (Run.expr n scope (e.map f))
  exprs : ∀ (scope : ScopeId) (es : List (Expr α)),
    R (List Value) (Run.exprs n scope es) (Run.exprs n scope (Expr.mapList f es))
  pairs : ∀ (scope : ScopeId) (ps : List (Expr α × Expr α)) (t : Table),
    R Table (Run.pairs n scope ps t) (Run.pairs n scope (Expr.mapPairs f ps) t)
  stmt : ∀ (scope : ScopeId) (x : Stmt α),
    R Value (Run.stmt n scope x) (Run.stmt n scope (x.map f))
  stmts : ∀ (scope : ScopeId) (xs : List (Stmt α)) (v : Value),
    R Value (Run.stmts n scope xs v) (Run.stmts n scope (Stmt.mapList f xs) v)
  loop : ∀ (scope : ScopeId) (c : Expr α) (xs : List (Stmt α)) (v : Value),
    R Value (Run.loop n scope c xs v) (Run.loop n scope (c.map f) (Stmt.mapList f xs) v)
  apply : ∀ (callee : Value) (args : List Value),
    R Value (Run.apply n callee args) (Run.apply n callee args)

variable [Digest]

theorem upTo_zero (hR : FullCongruence f R) : UpTo f R 0 where
  expr _ _ := hR.outOfFuel
  exprs _ _ := hR.outOfFuel
  pairs _ _ _ := hR.outOfFuel
  stmt _ _ := hR.outOfFuel
  stmts _ _ _ := hR.outOfFuel
  loop _ _ _ _ := hR.outOfFuel
  apply _ _ := hR.outOfFuel

section

variable (hR : FullCongruence f R) {n : Nat} (ih : UpTo f R n)

include hR ih

theorem exprs (scope : ScopeId) (es : List (Expr α)) :
    R _ (Run.exprs (n + 1) scope es) (Run.exprs (n + 1) scope (Expr.mapList f es)) := by
  cases es with
  | nil => exact hR.pure _
  | cons e es =>
      refine hR.bind (ih.expr scope e) fun v => ?_
      exact hR.bind (ih.exprs scope es) fun vs => hR.pure _

theorem pairs (scope : ScopeId) (ps : List (Expr α × Expr α)) (t : Table) :
    R _ (Run.pairs (n + 1) scope ps t) (Run.pairs (n + 1) scope (Expr.mapPairs f ps) t) := by
  cases ps with
  | nil => exact hR.pure _
  | cons p ps =>
      obtain ⟨k, e⟩ := p
      refine hR.bind (ih.expr scope k) fun kv => ?_
      cases kv.key? with
      | none => exact hR.error _
      | some key => exact hR.bind (ih.expr scope e) fun v => ih.pairs scope ps _

theorem stmts (scope : ScopeId) (xs : List (Stmt α)) (v : Value) :
    R _ (Run.stmts (n + 1) scope xs v) (Run.stmts (n + 1) scope (Stmt.mapList f xs) v) := by
  cases xs with
  | nil => exact hR.pure _
  | cons x xs => exact hR.bind (ih.stmt scope x) fun w => ih.stmts scope xs w

theorem loop (scope : ScopeId) (c : Expr α) (xs : List (Stmt α)) (v : Value) :
    R _ (Run.loop (n + 1) scope c xs v)
      (Run.loop (n + 1) scope (c.map f) (Stmt.mapList f xs) v) := by
  refine hR.bind (ih.expr scope c) fun w => ?_
  cases w.truthy with
  | true => exact hR.bind (ih.stmts scope xs .null) fun u => ih.loop scope c xs u
  | false => exact hR.pure _

theorem stmt (scope : ScopeId) (x : Stmt α) :
    R _ (Run.stmt (n + 1) scope x) (Run.stmt (n + 1) scope (x.map f)) := by
  cases x with
  | declare kind t x e =>
      refine hR.bind (ih.expr scope e) fun v => ?_
      exact hR.bind (hR.rebind fun h => h.declare_map f kind scope x.name v) fun _ => hR.pure _
  | ret t e => exact hR.bind (ih.expr scope e) fun v => hR.ret v
  | expr t e => exact ih.expr scope e

theorem apply (callee : Value) (args : List Value) :
    R _ (Run.apply (n + 1) callee args) (Run.apply (n + 1) callee args) := by
  cases callee with
  | func id =>
      refine hR.closure id fun found => ?_
      cases found with
      | none => exact hR.error _
      | some c =>
          by_cases hlen : c.params.length = args.length
          · simp only [Option.map_some, Closure.params_map, if_pos hlen]
            refine hR.bind (hR.change fun h => h.enter_map f c.scope c.params args) fun scope => ?_
            obtain ⟨idents, ⟨t, xs⟩, outer⟩ := c
            exact hR.returned (ih.stmts scope xs .null)
          · simp only [Option.map_some, Closure.params_map, if_neg hlen]
            exact hR.error _
  | builtin b => exact hR.call b args
  | _ => exact hR.error _

theorem expr (scope : ScopeId) (e : Expr α) :
    R _ (Run.expr (n + 1) scope e) (Run.expr (n + 1) scope (e.map f)) := by
  cases e with
  | ident x => exact hR.name scope x.name
  | int | str | bool => exact hR.pure _
  | unary t op r => exact hR.bind (ih.expr scope r) fun v => hR.ofExcept _
  | binary t op l r =>
      refine hR.bind (ih.expr scope l) fun v => ?_
      exact hR.bind (ih.expr scope r) fun w => hR.ofExcept _
  | assign t x e =>
      refine hR.bind (ih.expr scope e) fun v => ?_
      exact hR.bind (hR.rebind fun h => h.assign_map f scope x.name v) fun _ => hR.pure _
  | cond t c b alt =>
      refine hR.bind (ih.expr scope c) fun v => ?_
      obtain ⟨t', xs⟩ := b
      cases v.truthy with
      | true => exact ih.stmts scope xs .null
      | false =>
          match alt with
          | none => exact hR.pure _
          | some ⟨u, ys⟩ => exact ih.stmts scope ys .null
  | loop t c b =>
      obtain ⟨t', xs⟩ := b
      exact ih.loop scope c xs .null
  | func t ps b =>
      refine hR.bind (hR.change fun h => h.alloc_map f (.func ⟨ps, b, scope⟩)) fun id => ?_
      exact hR.pure _
  | call t e es =>
      refine hR.bind (ih.expr scope e) fun callee => ?_
      refine hR.bind (ih.exprs scope es) fun args => ?_
      exact hR.bind (ih.apply callee args) fun v => hR.settle v
  | array t es => exact hR.bind (ih.exprs scope es) fun vs => hR.newArray vs
  | index t l i =>
      refine hR.bind (ih.expr scope l) fun v => ?_
      refine hR.bind (ih.expr scope i) fun w => ?_
      refine hR.bind (hR.see fun h => h.index_map f v w) fun found => ?_
      exact hR.bind (hR.ofExcept found) fun u => hR.settle u
  | hash t ps =>
      refine hR.bind (ih.pairs scope ps Table.empty) fun table => ?_
      refine hR.bind (hR.change fun h => h.alloc_map f (.hash table)) fun id => ?_
      exact hR.pure _

end

theorem upTo (hR : FullCongruence f R) (n : Nat) : UpTo f R n := by
  induction n with
  | zero => exact hR.upTo_zero
  | succ n ih =>
      exact ⟨hR.expr ih, hR.exprs ih, hR.pairs ih, hR.stmt ih, hR.stmts ih, hR.loop ih,
        hR.apply ih⟩

theorem program (hR : FullCongruence f R) (n : Nat) (scope : ScopeId) (p : Program α) :
    R Value (Run.program n scope p) (Run.program n scope (p.map f)) :=
  hR.reported (hR.returned ((hR.upTo n).stmts scope p.statements .null))

end FullCongruence

end MonkeyLang
