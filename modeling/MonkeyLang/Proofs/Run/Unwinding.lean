import MonkeyLang.Host.Memory
import MonkeyLang.Proofs.Run.Job

/-!
# Unwinding

An error or a return that comes out of a part of a job is what comes out of the
job, and nothing is evaluated after it.  A return goes as far as the call of the
function that it is in, or to the program, and an error to the end.
-/

namespace MonkeyLang

open RunOn

variable {α S : Type} [Host (StateM S)]

/-- What becomes of a value that a call comes to. -/
def Value.settled : Value → Except Interrupt Value
  | .error message => .error (.error message)
  | .ret v => .error (.ret v)
  | v => .ok v

namespace RunOn

variable {σ : Type} {x : RunOn σ (StateM S) Value} {st st' : σ} {s s' : S} {i : Interrupt}

omit [Host (StateM S)]

theorem ending_settle (v : Value) (st : σ) (s : S) :
    (Run.settle v : RunOn σ (StateM S) Value).ending st s = ⟨some v.settled, st, s⟩ := by
  cases v <;> rfl

theorem ending_returned_of_error (hx : x.ending st s = ⟨some (.error i), st', s'⟩) :
    (Run.returned x).ending st s = ⟨some i.returned, st', s'⟩ := by
  rw [Run.returned, ending_tryCatch, hx]
  cases i <;> rfl

theorem ending_concluded_of_error (hx : x.ending st s = ⟨some (.error i), st', s'⟩) :
    (Run.reported (Run.returned x)).ending st s = ⟨some i.concluded, st', s'⟩ := by
  rw [Run.reported, ending_tryCatch, ending_returned_of_error hx]
  cases i <;> rfl

end RunOn

namespace Job

variable [Digest] {c b d : Job α S} {h : Heap α} {s : S} {i : Interrupt} {m : String} {v : Value}

/-- A job is interrupted by what interrupts the part that it turns to. -/
theorem TurnsTo.interrupt (hcd : c.TurnsTo d) (hd : d.Ends (.error i) h s) :
    c.Ends (.error i) h s := by
  cases hcd with
  | operand | left | assigned | condition | callee | elements | indexed | members | head | key
  | declared | returned | statement | loopCondition =>
      obtain ⟨n, hn⟩ := hd.exists
      exact .of_ending (n := n + 1) (ending_bind_of_error hn)
  | rounds | expression =>
      obtain ⟨n, hn⟩ := hd.exists
      exact .of_ending (n := n + 1) hn
  | right hfirst | arguments hfirst | index hfirst | tail hfirst =>
      obtain ⟨n, hfirst, hn⟩ := (hfirst.and hd).exists
      exact .of_ending (n := n + 1) ((ending_bind_of_ok hfirst).trans (ending_bind_of_error hn))
  | laterStatements hx =>
      obtain ⟨n, hx, hn⟩ := (hx.and hd).exists
      exact .of_ending (n := n + 1) ((ending_bind_of_ok hx).trans hn)
  | application he hes =>
      obtain ⟨n, ⟨he, hes⟩, hn⟩ := ((he.and hes).and hd).exists
      refine .of_ending (n := n + 1) ((ending_bind_of_ok he).trans ?_)
      exact (ending_bind_of_ok hes).trans (ending_bind_of_error hn)
  | consequence hc hv =>
      obtain ⟨n, hc, hn⟩ := (hc.and hd).exists
      refine .of_ending (n := n + 1) ((ending_bind_of_ok hc).trans ?_)
      rw [if_pos hv]
      exact hn
  | alternative hc hv =>
      obtain ⟨n, hc, hn⟩ := (hc.and hd).exists
      refine .of_ending (n := n + 1) ((ending_bind_of_ok hc).trans ?_)
      rw [hv]
      exact hn
  | value hk hkey =>
      obtain ⟨n, hk, hn⟩ := (hk.and hd).exists
      refine .of_ending (n := n + 1) ((ending_bind_of_ok hk).trans ?_)
      rw [hkey]
      exact ending_bind_of_error hn
  | laterPairs hk hkey he =>
      obtain ⟨n, ⟨hk, he⟩, hn⟩ := ((hk.and he).and hd).exists
      refine .of_ending (n := n + 1) ((ending_bind_of_ok hk).trans ?_)
      rw [hkey]
      exact (ending_bind_of_ok he).trans hn
  | round hc hv =>
      obtain ⟨n, hc, hn⟩ := (hc.and hd).exists
      refine .of_ending (n := n + 1) ((ending_bind_of_ok hc).trans ?_)
      rw [if_pos hv]
      exact ending_bind_of_error hn
  | laterRounds hc hv hbody =>
      obtain ⟨n, ⟨hc, hbody⟩, hn⟩ := ((hc.and hbody).and hd).exists
      refine .of_ending (n := n + 1) ((ending_bind_of_ok hc).trans ?_)
      rw [if_pos hv]
      exact (ending_bind_of_ok hbody).trans hn

/-- A call and a program see to the interrupts in their midst. -/
theorem Enters.interrupt (hcb : c.Enters b) (hb : b.Ends (.error i) h s) :
    c.Ends (c.task.interrupted i) h s := by
  obtain ⟨n, hn⟩ := hb.exists
  cases hcb with
  | @body id f args h₀ s₀ hf hlen =>
      have hsee : (Run.see (·.closure? id) : RunOn (Heap α) (StateM S) _).ending h₀ s₀ =
          ⟨some (.ok (some f)), h₀, s₀⟩ := by
        have hheap : (Store.heap h₀).closure? id = some f := hf
        rw [ending_see, hheap]
      refine .of_ending (n := n + 1) ((ending_bind_of_ok hsee).trans ?_)
      simp only [if_pos hlen]
      exact (ending_bind_of_ok (ending_change _ _ _)).trans (ending_returned_of_error hn)
  | program => exact .of_ending (n := n) (ending_concluded_of_error hn)

/-- A job is interrupted by what interrupts a part of it, unless there is a call
around the part. -/
theorem Surrounds.interrupt (hcd : c.Surrounds d) (hd : d.Ends (.error i) h s) :
    c.Ends (.error i) h s := by
  induction hcd using Relation.ReflTransGen.head_induction_on with
  | refl => exact hd
  | head hstep _ ih => exact hstep.interrupt ih

/-- Where a job turns to a part of it, interrupts are not seen to. -/
theorem TurnsTo.interrupted_eq (hcd : c.TurnsTo d) : c.task.interrupted i = .error i := by
  cases hcd <;> rfl

theorem TurnsTo.interrupted_error (hcd : c.TurnsTo d) :
    d.task.interrupted (.error m) = .error (.error m) := by
  cases hcd <;> rfl

omit [Digest] [Host (StateM S)] in
theorem Enters.interrupted_eq (hcb : c.Enters b) : b.task.interrupted i = .error i := by
  cases hcb <;> rfl

/-- An error in the midst of a job comes out of the job. -/
theorem ComesTo.error (hcd : c.ComesTo d) (hd : d.Ends (d.task.interrupted (.error m)) h s) :
    c.Ends (c.task.interrupted (.error m)) h s := by
  induction hcd using Relation.ReflTransGen.head_induction_on with
  | refl => exact hd
  | head hstep _ ih =>
      rcases hstep with hturns | henters
      · rw [hturns.interrupted_error] at ih
        rw [hturns.interrupted_eq]
        exact hturns.interrupt ih
      · rw [henters.interrupted_eq] at ih
        exact henters.interrupt ih

/-- A call in which a value is returned comes to this value, and evaluation goes
on with it. -/
theorem Enters.goes_on {scope : ScopeId} {t : α} {e : Expr α} {es : List (Expr α)} {h₀ : Heap α}
    {s₀ : S} (hcall : TurnsTo ⟨.expr scope (.call t e es), h₀, s₀⟩ c) (hcb : c.Enters b)
    (hb : b.Ends (.error (.ret v)) h s) :
    Ends ⟨.expr scope (.call t e es), h₀, s₀⟩ v.settled h s := by
  have hc := hcb.interrupt hb
  cases hcall with
  | callee => cases hcb
  | arguments => cases hcb
  | application he hes =>
      obtain ⟨n, ⟨he, hes⟩, hn⟩ := ((he.and hes).and hc).exists
      refine .of_ending (n := n + 1) ((ending_bind_of_ok he).trans ?_)
      refine (ending_bind_of_ok hes).trans ?_
      exact (ending_bind_of_ok hn).trans (ending_settle _ _ _)

end Job

/-- Errors and returns stop evaluation at once.

An error comes out of every job in the midst of which it comes up, and nothing
more is done: the heap and the host are left as they were where it came up.  A
return comes out of everything up to the call of a function or the program; this
has the returned value as its own, and a call expression then goes on with the
value, from the heap and the host where the return came up. -/
theorem interrupts_unwind [Digest] {c d : Job α S} {h : Heap α} {s : S} :
    (∀ m, c.ComesTo d → d.Ends (d.task.interrupted (.error m)) h s →
      c.Ends (c.task.interrupted (.error m)) h s) ∧
    (∀ v, c.Surrounds d → d.Ends (.error (.ret v)) h s → c.Ends (.error (.ret v)) h s) ∧
    (∀ v b, c.Enters b → b.Surrounds d → d.Ends (.error (.ret v)) h s →
      c.Ends (c.task.interrupted (.ret v)) h s) ∧
    ∀ v b scope t e es h₀ s₀, Job.TurnsTo ⟨.expr scope (.call t e es), h₀, s₀⟩ c →
      c.Enters b → b.Surrounds d → d.Ends (.error (.ret v)) h s →
        Job.Ends ⟨.expr scope (.call t e es), h₀, s₀⟩ v.settled h s := by
  refine ⟨fun m hcd hd => hcd.error hd, fun v hcd hd => hcd.interrupt hd, ?_, ?_⟩
  · exact fun v b hcb hbd hd => hcb.interrupt (hbd.interrupt hd)
  · exact fun v b scope t e es h₀ s₀ hcall hcb hbd hd => hcb.goes_on hcall (hbd.interrupt hd)

section

open Job

/-- A function that returns 5 out of a conditional. -/
def returning : Closure :=
  ⟨[⟨(), "a"⟩], .mk () [
    .expr () (.cond () (.ident ⟨(), "a"⟩) (.mk () [.ret () (.int () 5)]) none),
    .expr () (.int () 0)], 0⟩

/-- A function in which there is an error. -/
def failing : Closure :=
  ⟨[], .mk () [.expr () (.unary () .negate (.bool () true))], 0⟩

/-- A call that comes to 5. -/
def firstCall : Expr Unit :=
  .call () (.func () returning.idents returning.body) [.bool () true]

/-- A call that comes to an error. -/
def secondCall : Expr Unit :=
  .call () (.func () failing.idents failing.body) []

/-- A program that makes an array of the two calls, and would then write
something. -/
def unfinished : Program Unit :=
  ⟨[.expr () (.array () [firstCall, secondCall]),
    .expr () (.call () (.ident ⟨(), "print"⟩) [.int () 1])]⟩

/-- The heap in which the first function returns. -/
def atReturn : Heap :=
  ⟨#[.func returning],
    #[.empty none, ⟨Assoc.ofList [("a", .bool true)], Assoc.empty, some 0⟩]⟩

/-- The heap in which the second function comes to the error. -/
def atError : Heap :=
  ⟨#[.func returning, .func failing],
    #[.empty none, ⟨Assoc.ofList [("a", .bool true)], Assoc.empty, some 0⟩, .empty (some 0)]⟩

/-- The call of the first function goes on with 5.  The program ends with the error
of the second; no array is made, and nothing is written. -/
theorem unfinished_unwinds :
    Ends ⟨.expr 0 firstCall, Heap.initial, Memory.start [] ∅⟩ (.ok (.int 5)) atReturn
        (Memory.start [] ∅) ∧
      Ends ⟨.program 0 unfinished, Heap.initial, Memory.start [] ∅⟩
        (.ok (.error "unknown operator: -BOOLEAN")) atError (Memory.start [] ∅) := by
  have hfirst : Ends ⟨.expr 0 firstCall, Heap.initial, Memory.start [] ∅⟩ (.ok (.int 5))
      atReturn (Memory.start [] ∅) := by
    have hcall : TurnsTo ⟨.expr 0 firstCall, Heap.initial, Memory.start [] ∅⟩
        ⟨.apply (.func 0) [.bool true], (Heap.initial.alloc (.func returning)).2,
          Memory.start [] ∅⟩ :=
      .application (.of_ending (n := 1) rfl) (.of_ending (n := 2) rfl)
    have hbody : Surrounds ⟨.stmts 1 returning.body.statements .null, atReturn, Memory.start [] ∅⟩
        ⟨.stmt 1 (.ret () (.int () 5)), atReturn, Memory.start [] ∅⟩ :=
      .head .statement <| .head .expression <|
        .head (.consequence (v := .bool true) (.of_ending (n := 1) rfl) rfl) <| .single .statement
    exact interrupts_unwind.2.2.2 _ _ _ _ _ _ _ _ hcall (.body rfl rfl) hbody
      (.of_ending (n := 2) rfl)
  refine ⟨hfirst, ?_⟩
  -- The error is in the second call, which is the second element of the array.
  have hcall : TurnsTo ⟨.expr 0 secondCall, atReturn, Memory.start [] ∅⟩
      ⟨.apply (.func 1) [], (atReturn.alloc (.func failing)).2, Memory.start [] ∅⟩ :=
    .application (.of_ending (n := 1) rfl) (.of_ending (n := 1) rfl)
  have hpath : ComesTo ⟨.program 0 unfinished, Heap.initial, Memory.start [] ∅⟩
      ⟨.expr 2 (.unary () .negate (.bool () true)), atError, Memory.start [] ∅⟩ :=
    .head (.inr .program) <| .head (.inl .statement) <| .head (.inl .expression) <|
      .head (.inl .elements) <| .head (.inl (.tail hfirst)) <| .head (.inl .head) <|
        .head (.inl hcall) <| .head (.inr (.body rfl rfl)) <| .head (.inl .statement) <|
          .single (.inl .expression)
  exact interrupts_unwind.1 _ hpath (.of_ending (n := 2) rfl)

end

end MonkeyLang
