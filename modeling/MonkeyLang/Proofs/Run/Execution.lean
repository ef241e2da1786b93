import MonkeyLang.Proofs.Run.Job
import MonkeyLang.Proofs.Store.Operation

/-!
# The operations of a run

A job changes the heap by operations.  Which operation a job performs itself can
be read off its tree: an assignment assigns, a declaration declares, a call
enters a scope, and so on.  The heap that a job leaves comes from the heap that
it begins with by the operations performed in its midst, one after the other.
-/

namespace MonkeyLang

open RunOn Relation

variable {α S : Type} [Digest] [Host (StateM S)]

namespace Job

/-- The job itself performs the operation on the heap. -/
inductive Performs : Job α S → Operation α → Heap α → Prop
  | assign {scope t x e h s v h' s'} (he : Ends ⟨.expr scope e, h, s⟩ (.ok v) h' s') :
      Performs ⟨.expr scope (.assign t x e), h, s⟩ (.assign scope x.name v) h'
  | declare {scope kind t x e h s v h' s'} (he : Ends ⟨.expr scope e, h, s⟩ (.ok v) h' s') :
      Performs ⟨.stmt scope (.declare kind t x e), h, s⟩ (.declare kind scope x.name v) h'
  | func {scope t params body h s} :
      Performs ⟨.expr scope (.func t params body), h, s⟩ (.alloc (.func ⟨params, body, scope⟩)) h
  | array {scope t es h s vs h' s'} (hes : Ends ⟨.exprs scope es, h, s⟩ (.ok vs) h' s') :
      Performs ⟨.expr scope (.array t es), h, s⟩ (.alloc (.array vs)) h'
  | hash {scope t ps h s table h' s'}
      (hps : Ends ⟨.pairs scope ps Table.empty, h, s⟩ (.ok table) h' s') :
      Performs ⟨.expr scope (.hash t ps), h, s⟩ (.alloc (.hash table)) h'
  | enter {id f args h s} (hf : h.closure? id = some f) (hlen : f.params.length = args.length) :
      Performs ⟨.apply (.func id) args, h, s⟩ (.enter f.scope f.params args) h
  | rest {id v vs h s} (hes : h.elements id = v :: vs) :
      Performs ⟨.apply (.builtin .rest) [.array id], h, s⟩ (.alloc (.array vs)) h
  | push {id v h s} :
      Performs ⟨.apply (.builtin .push) [.array id, v], h, s⟩
        (.alloc (.array (h.elements id ++ [v]))) h
  | pop {id h s} : Performs ⟨.apply (.builtin .pop) [.array id], h, s⟩ (.pop id) h

/-- The operation is performed on the heap in the midst of the job. -/
def Executes (c : Job α S) (op : Operation α) (h : Heap α) : Prop :=
  ∃ d, c.ComesTo d ∧ d.Performs op h

/-- In the midst of the job, the second heap comes from the first by operations. -/
def Changes (c : Job α S) : Heap α → Heap α → Prop :=
  ReflTransGen fun h h' => ∃ op, c.Executes op h ∧ h' = op.apply h

section

variable {c d : Job α S} {h h' : Heap α} {op : Operation α}

theorem Performs.changes (hc : c.Performs op h) : c.Changes h (op.apply h) :=
  .single ⟨op, ⟨c, .refl, hc⟩, rfl⟩

/-- What is changed in the midst of a part is changed in the midst of the job. -/
theorem Changes.of_step (hcd : c.TurnsTo d ∨ c.Enters d) (hd : d.Changes h h') :
    c.Changes h h' := by
  refine ReflTransGen.mono ?_ h h' hd
  rintro h h' ⟨op, ⟨e, hde, hop⟩, rfl⟩
  exact ⟨op, ⟨e, .head hcd hde, hop⟩, rfl⟩

end

end Job

/-! ## Runs that leave the heap as it is -/

namespace RunOn

variable {σ β γ : Type}

omit [Digest]

/-- A run that leaves the state as it is. -/
def Quiet (x : RunOn σ (StateM S) β) : Prop :=
  ∀ st s, (x.ending st s).state = st

section

omit [Host (StateM S)]

theorem quiet_pure (v : β) : Quiet (pure v : RunOn σ (StateM S) β) :=
  fun _ _ => rfl

theorem quiet_interrupt (i : Interrupt) : Quiet (Run.interrupt i : RunOn σ (StateM S) β) :=
  fun _ _ => rfl

theorem quiet_onHost (x : StateM S β) : Quiet (Run.onHost x : RunOn σ (StateM S) β) :=
  fun _ _ => rfl

theorem quiet_see [Store α σ] (f : Heap α → β) : Quiet (Run.see f : RunOn σ (StateM S) β) :=
  fun _ _ => rfl

theorem Quiet.bind {x : RunOn σ (StateM S) β} {k : β → RunOn σ (StateM S) γ} (hx : Quiet x)
    (hk : ∀ v, Quiet (k v)) : Quiet (x >>= k) := by
  intro st s
  have hst := hx st s
  rw [ending_bind]
  revert hst
  obtain ⟨_ | _ | v, st', s'⟩ := x.ending st s
  · exact fun hst => hst
  · exact fun hst => hst
  · rintro rfl
    exact hk v st' s'

theorem quiet_ofExcept (r : Except RuntimeError β) :
    Quiet (Run.ofExcept r : RunOn σ (StateM S) β) := by
  cases r with
  | ok v => exact quiet_pure v
  | error e => exact quiet_interrupt _

theorem quiet_settle (v : Value) : Quiet (Run.settle v : RunOn σ (StateM S) Value) := by
  cases v with
  | error | ret => exact quiet_interrupt _
  | _ => exact quiet_pure _

end

theorem quiet_readLine : Quiet (Builtin.readLine : RunOn σ (StateM S) Value) := by
  refine (quiet_onHost _).bind fun line => ?_
  cases line with
  | some text => exact quiet_pure _
  | none => exact quiet_pure _

theorem quiet_exitWith (code : Int32) :
    Quiet (Builtin.exitWith code : RunOn σ (StateM S) Value) := by
  refine (quiet_onHost _).bind fun ends => ?_
  cases ends with
  | true => exact quiet_interrupt _
  | false => exact quiet_pure _

section

variable [Store α σ]

theorem quiet_printAll (vs : List Value) :
    Quiet (Builtin.printAll vs : RunOn σ (StateM S) Unit) := by
  induction vs with
  | nil => exact quiet_pure ()
  | cons v vs ih => exact (quiet_see _).bind fun text => (quiet_onHost _).bind fun _ => ih

omit [Host (StateM S)]

theorem quiet_name (scope : ScopeId) (x : String) :
    Quiet (Run.name scope x : RunOn σ (StateM S) Value) := by
  refine (quiet_see _).bind fun found => ?_
  cases found with
  | some v => exact quiet_settle v
  | none =>
      cases Builtin.ofName? x with
      | some b => exact quiet_pure _
      | none => exact quiet_interrupt _

theorem quiet_elementsOf (b : Builtin) (v : Value) :
    Quiet (b.elementsOf v : RunOn σ (StateM S) (List Value)) := by
  cases v with
  | array id => exact quiet_see _
  | _ => exact quiet_interrupt _

theorem quiet_length (v : Value) : Quiet (Builtin.length v : RunOn σ (StateM S) Value) := by
  cases v with
  | str text => exact quiet_pure _
  | array id => exact (quiet_see _).bind fun es => quiet_pure _
  | _ => exact quiet_interrupt _

omit [Store α σ]

theorem quiet_textOf (b : Builtin) (v : Value) :
    Quiet (b.textOf v : RunOn σ (StateM S) String) := by
  cases v with
  | str text => exact quiet_pure text
  | _ => exact quiet_interrupt _

end

end RunOn

/-! ## Every change is an operation -/

namespace Job

variable {c d : Job α S} {h : Heap α} {s : S} {β γ : Type}

omit [Digest] [Host (StateM S)] in
theorem ending_elementsOf (b : Builtin) (id : ObjectId) :
    (b.elementsOf (.array id) : RunOn (Heap α) (StateM S) (List Value)).ending h s =
      ⟨some (.ok (h.elements id)), h, s⟩ :=
  rfl

omit [Digest] [Host (StateM S)] in
/-- Whether or not it is refused, a change of bindings is made as it is said. -/
theorem state_rebind (f : Heap α → Except BindingError Unit × Heap α) :
    ((Run.rebind f : RunOn (Heap α) (StateM S) Unit).ending h s).state = (f h).2 := by
  rw [Run.rebind, ending_bind_of_ok (ending_change h s f)]
  cases (f (Store.heap h)).1 <;> rfl

theorem changes_quiet {x : RunOn (Heap α) (StateM S) β} (hx : Quiet x) :
    c.Changes h (x.ending h s).state := by
  rw [hx]
  exact .refl

/-- Changes in a run, and then changes in what comes after it. -/
theorem changes_bind {x : RunOn (Heap α) (StateM S) β} {k : β → RunOn (Heap α) (StateM S) γ}
    (hx : c.Changes h (x.ending h s).state)
    (hk : ∀ v h' s', x.ending h s = ⟨some (.ok v), h', s'⟩ →
      c.Changes h' ((k v).ending h' s').state) :
    c.Changes h ((x >>= k).ending h s).state := by
  rw [ending_bind]
  revert hx hk
  obtain ⟨_ | _ | v, h', s'⟩ := x.ending h s
  · exact fun hx _ => hx
  · exact fun hx _ => hx
  · exact fun hx hk => hx.trans (hk v h' s' rfl)

theorem changes_bind_of_ok {x : RunOn (Heap α) (StateM S) β}
    {k : β → RunOn (Heap α) (StateM S) γ} {v : β} (hx : x.ending h s = ⟨some (.ok v), h, s⟩)
    (hk : c.Changes h ((k v).ending h s).state) :
    c.Changes h ((x >>= k).ending h s).state := by
  rwa [ending_bind_of_ok hx]

theorem changes_tryCatch {x : RunOn (Heap α) (StateM S) β}
    {k : Interrupt → RunOn (Heap α) (StateM S) β} (hx : c.Changes h (x.ending h s).state)
    (hk : ∀ i, Quiet (k i)) : c.Changes h ((tryCatch x k).ending h s).state := by
  rw [ending_tryCatch]
  revert hx
  obtain ⟨_ | i | _, h', s'⟩ := x.ending h s
  · exact fun hx => hx
  · exact fun hx => hx.trans (changes_quiet (hk i))
  · exact fun hx => hx

theorem changes_returned {x : RunOn (Heap α) (StateM S) Value}
    (hx : c.Changes h (x.ending h s).state) :
    c.Changes h ((Run.returned x).ending h s).state := by
  refine changes_tryCatch hx fun i => ?_
  cases i with
  | ret v => exact quiet_pure v
  | error | exit => exact quiet_interrupt _

theorem changes_reported {x : RunOn (Heap α) (StateM S) Value}
    (hx : c.Changes h (x.ending h s).state) :
    c.Changes h ((Run.reported x).ending h s).state := by
  refine changes_tryCatch hx fun i => ?_
  cases i with
  | error m => exact quiet_pure _
  | ret | exit => exact quiet_interrupt _

/-- A builtin function changes the heap by the operation that it stands for, if it
stands for one. -/
theorem changes_call (b : Builtin) (args : List Value) (h : Heap α) (s : S) :
    Changes (S := S) ⟨.apply (.builtin b) args, h, s⟩ h
      ((b.call args : RunOn (Heap α) (StateM S) Value).ending h s).state := by
  induction b, args using Builtin.call_cases with
  | len v => exact changes_quiet (quiet_length v)
  | first v | last v => exact changes_quiet ((quiet_elementsOf _ v).bind fun es => quiet_pure _)
  | rest v =>
      cases v with
      | array id =>
          refine changes_bind_of_ok (ending_elementsOf _ id) ?_
          cases hcons : h.elements id with
          | nil => exact .refl
          | cons w ws => exact Performs.changes (.rest hcons)
      | _ => exact .refl
  | push v w =>
      cases v with
      | array id => exact changes_bind_of_ok (ending_elementsOf _ id) (Performs.changes .push)
      | _ => exact .refl
  | pop v =>
      cases v with
      | array id =>
          refine changes_bind (Performs.changes .pop) fun last h' s' _ => ?_
          cases last with
          | some v => exact .refl
          | none => exact .refl
      | _ => exact .refl
  | print vs => exact changes_quiet ((quiet_printAll vs).bind fun _ => quiet_pure _)
  | input => exact changes_quiet quiet_readLine
  | prompt v =>
      refine changes_quiet ?_
      exact (quiet_see _).bind fun text => (quiet_onHost _).bind fun _ => quiet_readLine
  | exit => exact changes_quiet (quiet_exitWith 0)
  | code v =>
      refine changes_quiet ?_
      cases v with
      | int n =>
          rw [Builtin.call]
          split
          · exact quiet_exitWith _
          · exact quiet_interrupt _
      | _ => exact quiet_interrupt _
  | read v =>
      refine changes_quiet ?_
      refine (quiet_textOf _ v).bind fun path => (quiet_onHost _).bind fun contents => ?_
      cases contents with
      | ok => exact quiet_pure _
      | error => exact quiet_interrupt _
  | write v w =>
      refine changes_quiet ?_
      refine (quiet_textOf _ v).bind fun path => (quiet_see _).bind fun contents => ?_
      refine (quiet_onHost _).bind fun done => ?_
      cases done with
      | ok => exact quiet_pure _
      | error => exact quiet_interrupt _
  | refused b args hcall =>
      rw [hcall]
      exact .refl

section

variable {n : Nat} (ih : ∀ d : Job α S, d.Changes d.heap (d.ending n).state)

include ih

/-- What is changed by a part is changed in the midst of the job. -/
theorem changes_part (hcd : c.TurnsTo d) : c.Changes d.heap (d.ending n).state :=
  (ih d).of_step (.inl hcd)

theorem changes_expr (scope : ScopeId) (e : Expr α) (h : Heap α) (s : S) :
    Changes (S := S) ⟨.expr scope e, h, s⟩ h
      ((Run.expr (n + 1) scope e : RunOn (Heap α) (StateM S) Value).ending h s).state := by
  cases e with
  | ident x => exact changes_quiet (quiet_name scope x.name)
  | int | str | bool => exact .refl
  | unary t op r =>
      exact changes_bind (changes_part ih .operand) fun v h' s' _ =>
        changes_quiet (quiet_ofExcept _)
  | binary t op l r =>
      refine changes_bind (changes_part ih .left) fun v h' s' hl => ?_
      refine changes_bind (changes_part ih (.right (.of_ending hl))) fun w h'' s'' _ => ?_
      exact changes_quiet (quiet_ofExcept _)
  | assign t x e =>
      refine changes_bind (changes_part ih .assigned) fun v h' s' he => ?_
      refine changes_bind ?_ fun _ h'' s'' _ => .refl
      rw [state_rebind]
      exact Performs.changes (.assign (.of_ending he))
  | cond t c b alt =>
      refine changes_bind (changes_part ih .condition) fun v h' s' hc => ?_
      cases hv : v.truthy with
      | true => exact changes_part ih (.consequence (.of_ending hc) hv)
      | false =>
          cases alt with
          | none => exact .refl
          | some b' => exact changes_part ih (.alternative (.of_ending hc) hv)
  | loop t c b => exact changes_part ih .rounds
  | func t params body =>
      exact changes_bind (Performs.changes .func) fun id h' s' _ => .refl
  | call t e es =>
      refine changes_bind (changes_part ih .callee) fun f h' s' he => ?_
      refine changes_bind (changes_part ih (.arguments (.of_ending he))) fun vs h'' s'' hes => ?_
      refine changes_bind (changes_part ih (.application (.of_ending he) (.of_ending hes)))
        fun v h₃ s₃ _ => ?_
      exact changes_quiet (quiet_settle v)
  | array t es =>
      refine changes_bind (changes_part ih .elements) fun vs h' s' hes => ?_
      exact Performs.changes (.array (.of_ending hes))
  | index t l i =>
      refine changes_bind (changes_part ih .indexed) fun v h' s' hl => ?_
      refine changes_bind (changes_part ih (.index (.of_ending hl))) fun w h'' s'' _ => ?_
      refine changes_quiet ?_
      exact (quiet_see _).bind fun found => (quiet_ofExcept found).bind fun u => quiet_settle u
  | hash t ps =>
      refine changes_bind (changes_part ih .members) fun table h' s' hps => ?_
      exact changes_bind (Performs.changes (.hash (.of_ending hps))) fun id h'' s'' _ => .refl

theorem changes_exprs (scope : ScopeId) (es : List (Expr α)) (h : Heap α) (s : S) :
    Changes (S := S) ⟨.exprs scope es, h, s⟩ h
      ((Run.exprs (n + 1) scope es : RunOn (Heap α) (StateM S) _).ending h s).state := by
  cases es with
  | nil => exact .refl
  | cons e es =>
      refine changes_bind (changes_part ih .head) fun v h' s' he => ?_
      exact changes_bind (changes_part ih (.tail (.of_ending he))) fun vs h'' s'' _ => .refl

theorem changes_pairs (scope : ScopeId) (ps : List (Expr α × Expr α)) (sofar : Table)
    (h : Heap α) (s : S) :
    Changes (S := S) ⟨.pairs scope ps sofar, h, s⟩ h
      ((Run.pairs (n + 1) scope ps sofar : RunOn (Heap α) (StateM S) _).ending h s).state := by
  cases ps with
  | nil => exact .refl
  | cons p ps =>
      obtain ⟨k, e⟩ := p
      refine changes_bind (changes_part ih .key) fun kv h' s' hk => ?_
      cases hkey : kv.key? with
      | none => exact .refl
      | some key =>
          refine changes_bind (changes_part ih (.value (.of_ending hk) hkey))
            fun v h'' s'' he => ?_
          exact changes_part ih (.laterPairs (.of_ending hk) hkey (.of_ending he))

theorem changes_stmt (scope : ScopeId) (x : Stmt α) (h : Heap α) (s : S) :
    Changes (S := S) ⟨.stmt scope x, h, s⟩ h
      ((Run.stmt (n + 1) scope x : RunOn (Heap α) (StateM S) Value).ending h s).state := by
  cases x with
  | declare kind t x e =>
      refine changes_bind (changes_part ih .declared) fun v h' s' he => ?_
      refine changes_bind ?_ fun _ h'' s'' _ => .refl
      rw [state_rebind]
      exact Performs.changes (.declare (.of_ending he))
  | ret t e =>
      exact changes_bind (changes_part ih .returned) fun v h' s' _ => .refl
  | expr t e => exact changes_part ih .expression

theorem changes_stmts (scope : ScopeId) (xs : List (Stmt α)) (sofar : Value) (h : Heap α)
    (s : S) :
    Changes (S := S) ⟨.stmts scope xs sofar, h, s⟩ h
      ((Run.stmts (n + 1) scope xs sofar : RunOn (Heap α) (StateM S) Value).ending h s).state := by
  cases xs with
  | nil => exact .refl
  | cons x xs =>
      refine changes_bind (changes_part ih .statement) fun v h' s' hx => ?_
      exact changes_part ih (.laterStatements (.of_ending hx))

theorem changes_loop (scope : ScopeId) (e : Expr α) (body : List (Stmt α)) (sofar : Value)
    (h : Heap α) (s : S) :
    Changes (S := S) ⟨.loop scope e body sofar, h, s⟩ h
      ((Run.loop (n + 1) scope e body sofar : RunOn (Heap α) (StateM S) Value).ending h s).state := by
  refine changes_bind (changes_part ih .loopCondition) fun v h' s' hc => ?_
  cases hv : v.truthy with
  | true =>
      refine changes_bind (changes_part ih (.round (.of_ending hc) hv)) fun w h'' s'' hbody => ?_
      exact changes_part ih (.laterRounds (.of_ending hc) hv (.of_ending hbody))
  | false => exact .refl

theorem changes_apply (callee : Value) (args : List Value) (h : Heap α) (s : S) :
    Changes (S := S) ⟨.apply callee args, h, s⟩ h
      ((Run.apply (n + 1) callee args : RunOn (Heap α) (StateM S) Value).ending h s).state := by
  cases callee with
  | func id =>
      refine changes_bind_of_ok (ending_see h s _) ?_
      cases hf : (Store.heap h).closure? id with
      | none => exact .refl
      | some f =>
          by_cases hlen : f.params.length = args.length
          · simp only [if_pos hlen]
            refine changes_bind (Performs.changes (.enter hf hlen)) fun scope h'' s'' hscope => ?_
            cases hscope
            exact changes_returned ((ih _).of_step (.inr (.body hf hlen)))
          · simp only [if_neg hlen]
            exact .refl
  | builtin b => exact changes_call b args h s
  | _ => exact .refl

end

/-- However much fuel there is, the heap that a job leaves comes from the heap that
it begins with by the operations performed in its midst. -/
theorem changes (c : Job α S) (n : Nat) : c.Changes c.heap (c.ending n).state := by
  induction n generalizing c with
  | zero =>
      obtain ⟨t, h, s⟩ := c
      cases t with
      | program scope p => exact changes_reported (changes_returned .refl)
      | _ => exact .refl
  | succ n ih =>
      obtain ⟨t, h, s⟩ := c
      cases t with
      | expr scope e => exact changes_expr ih scope e h s
      | exprs scope es => exact changes_exprs ih scope es h s
      | pairs scope ps sofar => exact changes_pairs ih scope ps sofar h s
      | stmt scope x => exact changes_stmt ih scope x h s
      | stmts scope xs sofar => exact changes_stmts ih scope xs sofar h s
      | loop scope e body sofar => exact changes_loop ih scope e body sofar h s
      | apply callee args => exact changes_apply ih callee args h s
      | program scope p =>
          -- A program has the fuel of its statements.
          refine changes_reported (changes_returned ?_)
          exact Changes.of_step (.inr .program) (changes_stmts ih scope p.statements .null h s)

/-! ## The heaps that parts begin with -/

theorem Ends.changes {o : Except Interrupt c.task.Result} (hc : c.Ends o h s) :
    c.Changes c.heap h := by
  obtain ⟨n, hn⟩ := hc.exists
  have hchanges := c.changes n
  rwa [hn] at hchanges

theorem TurnsTo.changes (hcd : c.TurnsTo d) : c.Changes c.heap d.heap := by
  cases hcd with
  | operand | left | assigned | condition | rounds | callee | elements | indexed | members
  | head | key | declared | returned | expression | statement | loopCondition => exact .refl
  | right hl => exact hl.changes.of_step (.inl .left)
  | consequence hc | alternative hc => exact hc.changes.of_step (.inl .condition)
  | arguments he => exact he.changes.of_step (.inl .callee)
  | application he hes =>
      exact (he.changes.of_step (.inl .callee)).trans
        (hes.changes.of_step (.inl (.arguments he)))
  | index hl => exact hl.changes.of_step (.inl .indexed)
  | tail he => exact he.changes.of_step (.inl .head)
  | value hk => exact hk.changes.of_step (.inl .key)
  | laterPairs hk hkey he =>
      exact (hk.changes.of_step (.inl .key)).trans
        (he.changes.of_step (.inl (.value hk hkey)))
  | laterStatements hx => exact hx.changes.of_step (.inl .statement)
  | round hc => exact hc.changes.of_step (.inl .loopCondition)
  | laterRounds hc hv hbody =>
      exact (hc.changes.of_step (.inl .loopCondition)).trans
        (hbody.changes.of_step (.inl (.round hc hv)))

theorem Enters.changes (hcb : c.Enters d) : c.Changes c.heap d.heap := by
  cases hcb with
  | body hf hlen => exact Performs.changes (.enter hf hlen)
  | program => exact .refl

/-- No scope is taken away in the midst of a job. -/
theorem Changes.size_scopes_le {h' : Heap α} (hc : c.Changes h h') :
    h.scopes.size ≤ h'.scopes.size := by
  induction hc with
  | refl => exact Nat.le_refl _
  | tail _ hstep ih =>
      obtain ⟨op, -, rfl⟩ := hstep
      exact ih.trans (Heap.size_scopes_le_apply _ op)

end Job

end MonkeyLang
