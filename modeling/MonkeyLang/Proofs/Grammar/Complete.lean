import MonkeyLang.Proofs.Grammar.First
import MonkeyLang.Proofs.Reading.Climbing

/-!
# What is derived is read

Every derivation is read as its tree, by the parser that belongs to its symbol
and without errors, as long as what follows cannot be taken for more of it.
An expression of some level is read by any parser of expressions that reads
that level, so what is said of it is that reading comes down to climbing on
from its tree.
-/

namespace MonkeyLang

namespace Reading

open Grammar

variable {π : Type} (endPos : π)

/-- What follows neither goes on with an expression whose operators bind
tighter than `p` nor is the alternative of a conditional. -/
def Stops (p : Precedence) (rest : List (Token π)) : Prop :=
  ∀ t ∈ rest.head?, t.kind ≠ .kwElse ∧ ¬p < t.kind.precedence

variable {endPos}

theorem stops_nil (p : Precedence) : Stops p ([] : List (Token π)) := by
  intro t ht
  simp at ht

theorem stops_cons {p : Precedence} {t : Token π} {rest : List (Token π)}
    (ht : t.kind ≠ .kwElse) (hp : ¬p < t.kind.precedence) : Stops p (t :: rest) := by
  intro u hu
  obtain rfl : t = u := by simpa using hu
  exact ⟨ht, hp⟩

theorem Stops.mono {p q : Precedence} {rest : List (Token π)} (h : Stops p rest)
    (hpq : p ≤ q) : Stops q rest := by
  intro t ht
  refine ⟨(h t ht).1, fun hq => (h t ht).2 ?_⟩
  exact Nat.lt_of_le_of_lt hpq hq

/-! ## The parsers of expressions, step by step -/

theorem expect_gives {want : Kind} {t : Token π} (ht : t.kind = want) (r : List (Token π)) :
    (expect endPos want (t :: r)).Gives t r := by
  simp only [expect, ht, if_true]
  exact Reply.gives_ok t r _

theorem climb_gives {p : Precedence} {rest : List (Token π)} (h : Stops p rest)
    (left : Expr (Token π)) : (climb endPos p left rest).Gives left rest := by
  rw [climb_eq_ok endPos fun t ht => (h t ht).2]
  exact Reply.gives_ok left rest _

theorem climb_gives_of_extend {p : Precedence} {left left' e : Expr (Token π)} {c : Continuation}
    {t : Token π} {r r' rest : List (Token π)} (hc : Continuation.ofKind? t.kind = some c)
    (hp : p < c.precedence) (hext : (extend endPos left c t r).Gives left' r')
    (hclimb : (climb endPos p left' r').Gives e rest) :
    (climb endPos p left (t :: r)).Gives e rest := by
  rw [climb_eq_extend endPos hc hp]
  exact hext.andThen _ fun _ => hclimb.weaken _

theorem expr_gives_of_operand {p : Precedence} {left e : Expr (Token π)} {t : Token π}
    {r r' rest : List (Token π)} (hop : (operand endPos t r).Gives left r')
    (hclimb : (climb endPos p left r').Gives e rest) :
    (expr endPos p (t :: r)).Gives e rest := by
  rw [expr]
  exact hop.andThen _ fun _ => hclimb.weaken _

/-! ## What each symbol is read as -/

/-- Reading `ts` above `p` comes down to climbing on from `e`. -/
def ReadsTo (endPos : π) (p : Precedence) (ts : List (Token π)) (e : Expr (Token π))
    (rest : List (Token π)) : Prop :=
  ∀ e' rest', (climb endPos p e rest).Gives e' rest' →
    (expr endPos p (ts ++ rest)).Gives e' rest'

/-- Climbing on from `left` over `ts` comes down to climbing on from `e`. -/
def ClimbsTo (endPos : π) (p : Precedence) (left : Expr (Token π)) (ts : List (Token π))
    (e : Expr (Token π)) (rest : List (Token π)) : Prop :=
  ∀ e' rest', (climb endPos p e rest).Gives e' rest' →
    (climb endPos p left (ts ++ rest)).Gives e' rest'

/-- The tokens `ts` are read as a whole expression. -/
def ReadsWhole (endPos : π) (ts : List (Token π)) (e : Expr (Token π)) : Prop :=
  ∀ rest, Stops .lowest rest → (expr endPos .lowest (ts ++ rest)).Gives e rest

/-- The kinds of token that close a list of expressions. -/
def ClosesList (k : Kind) : Prop :=
  k = .rightParen ∨ k = .rightBracket

/-- What reading the tokens of a symbol amounts to. -/
def Reads (endPos : π) : (s : Symbol π) → List (Token π) → s.Tree → Prop
  | .expr .expression, ts, e => ReadsWhole endPos ts e
  | .expr (.level l), ts, e =>
    ∀ p rest, p < l.precedence → Stops l.precedence rest → ReadsTo endPos p ts e rest
  | .expr .unary, ts, e =>
    ∀ p rest, p ≤ .unary → Stops .unary rest → ReadsTo endPos p ts e rest
  | .expr .postfixed, ts, e =>
    ∀ p rest, p ≤ .unary → Stops .index rest → ReadsTo endPos p ts e rest
  | .expr .primary, ts, e =>
    ∃ t r, ts = t :: r ∧ ∀ rest, Stops .index rest → (operand endPos t (r ++ rest)).Gives e rest
  | .expr .conditional, ts, e =>
    ∃ t r, ts = t :: r ∧ t.kind = .kwIf ∧
      ∀ rest, Stops .index rest → (conditional endPos t (r ++ rest)).Gives e rest
  | .chain l left, ts, e =>
    ∀ p rest, p < l.precedence → Stops l.precedence rest → ClimbsTo endPos p left ts e rest
  | .suffixes left, ts, e =>
    ∀ p rest, p ≤ .unary → Stops .index rest → ClimbsTo endPos p left ts e rest
  | .target, ts, x =>
    ∃ t r, ts = t :: r ∧ ∀ rest, (operand endPos t (r ++ rest)).Gives (.ident x) rest
  | .name, ts, x => ∃ t, ts = [t] ∧ t.kind = .identifier ∧ x = identOf t
  | .pair, ts, kv =>
    ∃ us c vs, ts = us ++ c :: vs ∧ c.kind = .colon ∧ ReadsWhole endPos us kv.1 ∧
      ReadsWhole endPos vs kv.2
  | .separated (.expr .expression), ts, es =>
    ∀ c rest, ClosesList c.kind → (exprItems endPos c.kind (ts ++ c :: rest)).Gives es rest
  | .separated .pair, ts, ps =>
    ∀ c rest, c.kind = .rightBrace → (pairItems endPos (ts ++ c :: rest)).Gives ps rest
  | .separated .name, ts, xs =>
    ∀ c rest, c.kind = .rightParen → (paramItems endPos (ts ++ c :: rest)).Gives xs rest
  | .listOf (.expr .expression), ts, es =>
    ∀ c rest, ClosesList c.kind → (exprList endPos c.kind (ts ++ c :: rest)).Gives es rest
  | .listOf .pair, ts, ps =>
    ∀ c rest, c.kind = .rightBrace → (pairs endPos (ts ++ c :: rest)).Gives ps rest
  | .listOf .name, ts, xs =>
    ∀ c rest, c.kind = .rightParen → (params endPos (ts ++ c :: rest)).Gives xs rest
  | .block, ts, b =>
    ∃ o r, ts = o :: r ∧ o.kind = .leftBrace ∧
      ∀ rest, (block endPos o (r ++ rest)).Gives b rest
  | .alternative, ts, alt =>
    ∀ rest, Stops .index rest → (alternative endPos (ts ++ rest)).Gives alt rest
  | .statement, ts, s =>
    ∃ t r, ts = t :: r ∧
      ∀ rest, Stops .lowest rest → (statement endPos t (r ++ rest)).Gives s (skipSemicolon rest)
  | .statements, ts, ss =>
    (∀ c rest, c.kind = .rightBrace →
      (blockStatements endPos (ts ++ c :: rest)).Gives ss rest) ∧
    statements endPos ts = (ss, [])
  | .separated _, _, _ | .listOf _, _, _ => True

/-! ## What can stand behind an operand -/

/-- What a chain of operators of a level begins with does not belong to the
operand before it. -/
theorem chain_stops {l : OperatorLevel} {left e : Expr (Token π)} {us rest : List (Token π)}
    (d : Derivation (.chain l left) us e) (h : Stops l.precedence rest) :
    Stops l.precedence (us ++ rest) := by
  cases d with
  | chainEnd => exact h
  | @chainStep _ _ _ t op _ _ _ ht hl =>
      have hprec : t.kind.precedence = l.precedence := by
        rw [ht, ← hl, op.precedence_level]
        simp [Kind.precedence, Continuation.precedence]
      refine stops_cons ?_ ?_
      · rw [ht]
        cases op <;> simp [BinaryOp.kind]
      · rw [hprec]
        exact Nat.lt_irrefl _

/-- Nor does what suffixes begin with belong to the primary expression before
them. -/
theorem suffixes_stop {left e : Expr (Token π)} {us rest : List (Token π)}
    (d : Derivation (.suffixes left) us e) (h : Stops .index rest) :
    Stops .index (us ++ rest) := by
  cases d with
  | suffixEnd => exact h
  | callStep ho => exact stops_cons (by simp [ho]) (by rw [ho]; decide)
  | indexStep ho => exact stops_cons (by simp [ho]) (by rw [ho]; decide)

/-- The operands of a level are read by any parser that reads the level. -/
theorem Reads.operand {l : OperatorLevel} {ts rest : List (Token π)} {e : Expr (Token π)}
    (h : Reads endPos (.expr (operandSymbol l)) ts e) {p : Precedence}
    (hp : p ≤ l.precedence) (hrest : Stops l.precedence rest) :
    ReadsTo endPos p ts e rest := by
  have below : ∀ {q : Precedence}, l.precedence < q → p < q := fun hq =>
    Nat.lt_of_le_of_lt hp hq
  cases l with
  | equality => exact h p rest (below (by decide)) (hrest.mono (by decide))
  | comparison => exact h p rest (below (by decide)) (hrest.mono (by decide))
  | or => exact h p rest (below (by decide)) (hrest.mono (by decide))
  | xor => exact h p rest (below (by decide)) (hrest.mono (by decide))
  | and => exact h p rest (below (by decide)) (hrest.mono (by decide))
  | sum => exact h p rest (below (by decide)) (hrest.mono (by decide))
  | product => exact h p rest (Nat.le_of_lt (below (by decide))) (hrest.mono (by decide))

/-- The right operand of an operator is read up to what follows it. -/
theorem Reads.rightOperand {op : BinaryOp} {ts rest : List (Token π)} {e : Expr (Token π)}
    (h : Reads endPos (.expr (operandSymbol op.level)) ts e)
    (hrest : Stops op.level.precedence rest) :
    (expr endPos op.precedence (ts ++ rest)).Gives e rest := by
  rw [← op.precedence_level]
  exact h.operand (Nat.le_refl _) hrest e rest (climb_gives hrest e)

/-- A kind of token that closes something does not go on with an expression. -/
theorem stops_close {k : Kind} (hk : ¬.lowest < k.precedence) (hk' : k ≠ .kwElse)
    {c : Token π} (hc : c.kind = k) (rest : List (Token π)) : Stops .lowest (c :: rest) := by
  subst hc
  exact stops_cons hk' hk

/-! ## The parsers of larger parts -/

theorem expr_close_gives {ts : List (Token π)} {e : Expr (Token π)} {k : Kind}
    (h : ReadsWhole endPos ts e) (hk : ¬.lowest < k.precedence) (hk' : k ≠ .kwElse)
    {c : Token π} (hc : c.kind = k) (rest : List (Token π)) :
    (expr endPos .lowest (ts ++ c :: rest)).Gives e (c :: rest) :=
  h (c :: rest) (stops_close hk hk' hc rest)

/-- What follows an expression and is the token that closes its list. -/
theorem moreExprItems_close {k : Kind} (hk : ClosesList k) {c : Token π} (hc : c.kind = k)
    (rest : List (Token π)) : (moreExprItems endPos k (c :: rest)).Gives [] rest := by
  have hcomma : c.kind ≠ .comma := by
    rw [hc]
    rcases hk with rfl | rfl <;> decide
  rw [moreExprItems]
  simp only [hcomma, if_false]
  exact (expect_gives hc rest).map _

theorem exprItems_gives {k : Kind} {ts us rest : List (Token π)} {c : Token π}
    {e : Expr (Token π)} {es : List (Expr (Token π))} (h : ReadsWhole endPos ts e)
    (hc : Stops .lowest (c :: us))
    (hmore : (moreExprItems endPos k (c :: us)).Gives es rest) :
    (exprItems endPos k (ts ++ c :: us)).Gives (e :: es) rest := by
  rw [exprItems]
  exact (h (c :: us) hc).andThen _ fun _ => (hmore.map _).weaken _

theorem pairItems_gives {ts us rest : List (Token π)} {c : Token π}
    {kv : Expr (Token π) × Expr (Token π)} {ps : List (Expr (Token π) × Expr (Token π))}
    (h : Reads endPos .pair ts kv) (hc : Stops .lowest (c :: us))
    (hmore : (morePairItems endPos (c :: us)).Gives ps rest) :
    (pairItems endPos (ts ++ c :: us)).Gives (kv :: ps) rest := by
  obtain ⟨ks, colon, vs, rfl, hcolon, hkey, hvalue⟩ := h
  have hread := expr_close_gives hkey (by decide) (by decide) hcolon (vs ++ c :: us)
  rw [pairItems, List.append_assoc, List.cons_append]
  refine hread.andThen _ fun _ => ?_
  refine (expect_gives hcolon _).andThen _ fun _ => ?_
  exact (hvalue (c :: us) hc).andThen _ fun _ => (hmore.map _).weaken _

/-! ## Each production -/

theorem reads_assign {ts us : List (Token π)} {t : Token π} {x : Ident (Token π)}
    {e : Expr (Token π)} (htarget : Reads endPos .target ts x) (ht : t.kind = .equal)
    (hvalue : ReadsWhole endPos us e) : ReadsWhole endPos (ts ++ t :: us) (.assign t x e) := by
  intro rest hrest
  obtain ⟨u, r, rfl, hop⟩ := htarget
  have hop' := hop (t :: (us ++ rest))
  have hext : (extend endPos (.ident x) .assign t (us ++ rest)).Gives (.assign t x e) rest := by
    rw [extend]
    exact ((hvalue rest hrest).map _).weaken _
  have hc : Continuation.ofKind? t.kind = some .assign := by rw [ht]; rfl
  rw [List.append_assoc]
  exact expr_gives_of_operand hop'
    (climb_gives_of_extend hc (by decide) hext (climb_gives hrest _))

theorem reads_level {l : OperatorLevel} {ts us : List (Token π)} {left e : Expr (Token π)}
    (hfirst : Reads endPos (.expr (operandSymbol l)) ts left) (d : Derivation (.chain l left) us e)
    (hmore : Reads endPos (.chain l left) us e) :
    Reads endPos (.expr (.level l)) (ts ++ us) e := by
  intro p rest hp hrest e' rest' hclimb
  have hstops := chain_stops d hrest
  rw [List.append_assoc]
  exact hfirst.operand (Nat.le_of_lt hp) hstops e' rest' (hmore p rest hp hrest e' rest' hclimb)

theorem reads_chainStep {ts us : List (Token π)} {t : Token π} {op : BinaryOp}
    {left right e : Expr (Token π)} (ht : t.kind = op.kind)
    (hoperand : Reads endPos (.expr (operandSymbol op.level)) ts right)
    (d : Derivation (.chain op.level (.binary t op left right)) us e)
    (hmore : Reads endPos (.chain op.level (.binary t op left right)) us e) :
    Reads endPos (.chain op.level left) (t :: (ts ++ us)) e := by
  intro p rest hp hrest e' rest' hclimb
  have hright := hoperand.rightOperand (chain_stops d hrest)
  have hext : (extend endPos left (.binary op) t (ts ++ (us ++ rest))).Gives
      (.binary t op left right) (us ++ rest) := by
    rw [extend]
    exact (hright.map _).weaken _
  have hc : Continuation.ofKind? t.kind = some (.binary op) := by rw [ht, op.ofKind?_kind]
  have hp' : p < op.precedence := by rwa [op.precedence_level] at hp
  rw [List.cons_append, List.append_assoc]
  exact climb_gives_of_extend hc hp' hext (hmore p rest hp hrest e' rest' hclimb)

theorem reads_unaryStep {ts : List (Token π)} {t : Token π} {op : UnaryOp}
    {e : Expr (Token π)} (ht : t.kind = op.kind) (h : Reads endPos (.expr .unary) ts e) :
    Reads endPos (.expr .unary) (t :: ts) (.unary t op e) := by
  intro p rest _ hrest e' rest' hclimb
  have hread := h .unary rest (Nat.le_refl _) hrest e rest (climb_gives hrest e)
  refine expr_gives_of_operand ?_ hclimb
  cases op with
  | not =>
      rw [operand]
      simp only [ht, UnaryOp.kind]
      exact (hread.map _).weaken _
  | negate =>
      rw [operand]
      simp only [ht, UnaryOp.kind]
      exact (hread.map _).weaken _

theorem reads_postfixed {ts us : List (Token π)} {left e : Expr (Token π)}
    (hfirst : Reads endPos (.expr .primary) ts left) (d : Derivation (.suffixes left) us e)
    (hmore : Reads endPos (.suffixes left) us e) :
    Reads endPos (.expr .postfixed) (ts ++ us) e := by
  intro p rest hp hrest e' rest' hclimb
  obtain ⟨t, r, rfl, hop⟩ := hfirst
  rw [List.append_assoc]
  exact expr_gives_of_operand (hop (us ++ rest) (suffixes_stop d hrest))
    (hmore p rest hp hrest e' rest' hclimb)

theorem reads_callStep {ts us : List (Token π)} {o c : Token π} {left e : Expr (Token π)}
    {es : List (Expr (Token π))} (ho : o.kind = .leftParen) (hc : c.kind = .rightParen)
    (hargs : Reads endPos (.listOf (.expr .expression)) ts es)
    (hmore : Reads endPos (.suffixes (.call o left es)) us e) :
    Reads endPos (.suffixes left) (o :: (ts ++ c :: us)) e := by
  intro p rest hp hrest e' rest' hclimb
  have hlist := hargs c (us ++ rest) (.inl hc)
  rw [hc] at hlist
  have hext : (extend endPos left .call o (ts ++ c :: (us ++ rest))).Gives
      (.call o left es) (us ++ rest) := by
    rw [extend]
    exact hlist.map _
  have hk : Continuation.ofKind? o.kind = some .call := by rw [ho]; rfl
  have hp' : p < Continuation.call.precedence := Nat.lt_of_le_of_lt hp (by decide)
  rw [List.cons_append, List.append_assoc]
  exact climb_gives_of_extend hk hp' hext (hmore p rest hp hrest e' rest' hclimb)

theorem reads_indexStep {ts us : List (Token π)} {o c : Token π} {left i e : Expr (Token π)}
    (ho : o.kind = .leftBracket) (hc : c.kind = .rightBracket)
    (hindex : ReadsWhole endPos ts i)
    (hmore : Reads endPos (.suffixes (.index o left i)) us e) :
    Reads endPos (.suffixes left) (o :: (ts ++ c :: us)) e := by
  intro p rest hp hrest e' rest' hclimb
  have hinner := expr_close_gives hindex (by decide) (by decide) hc (us ++ rest)
  have hext : (extend endPos left .index o (ts ++ c :: (us ++ rest))).Gives
      (.index o left i) (us ++ rest) := by
    rw [extend]
    exact hinner.andThen _ fun _ => ((expect_gives hc _).map _).weaken _
  have hk : Continuation.ofKind? o.kind = some .index := by rw [ho]; rfl
  have hp' : p < Continuation.index.precedence := Nat.lt_of_le_of_lt hp (by decide)
  rw [List.cons_append, List.append_assoc]
  exact climb_gives_of_extend hk hp' hext (hmore p rest hp hrest e' rest' hclimb)

theorem reads_group {ts : List (Token π)} {o c : Token π} {e : Expr (Token π)}
    (ho : o.kind = .leftParen) (hc : c.kind = .rightParen)
    (hinner : ∀ rest, (expr endPos .lowest (ts ++ c :: rest)).Gives e (c :: rest))
    (rest : List (Token π)) : (operand endPos o (ts ++ c :: rest)).Gives e rest := by
  rw [operand]
  simp only [ho]
  exact (hinner rest).andThen _ fun _ => ((expect_gives hc rest).map _).weaken _

theorem reads_targetGroup {ts : List (Token π)} {o c : Token π} {x : Ident (Token π)}
    (ho : o.kind = .leftParen) (hc : c.kind = .rightParen)
    (hinner : Reads endPos .target ts x) : Reads endPos .target (o :: (ts ++ [c])) x := by
  obtain ⟨t, r, rfl, hop⟩ := hinner
  refine ⟨o, _, rfl, fun rest => ?_⟩
  rw [List.append_assoc]
  exact reads_group ho hc (fun rest' => expr_gives_of_operand (hop (c :: rest'))
    (climb_gives (stops_close (by decide) (by decide) hc rest') _)) rest

theorem reads_loop {ts us : List (Token π)} {t : Token π} {c : Expr (Token π)}
    {b : Block (Token π)} (ht : t.kind = .kwWhile) (hcond : ReadsWhole endPos ts c)
    (hbody : Reads endPos .block us b) :
    Reads endPos (.expr .primary) (t :: (ts ++ us)) (.loop t c b) := by
  refine ⟨t, _, rfl, fun rest _ => ?_⟩
  obtain ⟨o, r, rfl, ho, hblock⟩ := hbody
  have hread := expr_close_gives hcond (by decide) (by decide) ho (r ++ rest)
  rw [operand, List.append_assoc, List.cons_append]
  simp only [ht]
  refine hread.andThen _ fun _ => ?_
  refine (expect_gives ho _).andThen _ fun _ => ?_
  exact ((hblock rest).map _).weaken _

theorem reads_func {ts us : List (Token π)} {t o c : Token π} {ps : List (Ident (Token π))}
    {b : Block (Token π)} (ht : t.kind = .kwFunc) (ho : o.kind = .leftParen)
    (hc : c.kind = .rightParen) (hparams : Reads endPos (.listOf .name) ts ps)
    (hbody : Reads endPos .block us b) :
    Reads endPos (.expr .primary) (t :: o :: (ts ++ c :: us)) (.func t ps b) := by
  refine ⟨t, _, rfl, fun rest _ => ?_⟩
  obtain ⟨brace, r, rfl, hbrace, hblock⟩ := hbody
  have hread := hparams c (brace :: r ++ rest) hc
  rw [operand, List.cons_append, List.append_assoc, List.cons_append]
  simp only [ht]
  refine (expect_gives ho _).andThen _ fun _ => ?_
  refine hread.andThen _ fun _ => ?_
  refine (expect_gives hbrace _).andThen _ fun _ => ?_
  exact ((hblock rest).map _).weaken _

theorem reads_conditional {ts us vs : List (Token π)} {t : Token π} {c : Expr (Token π)}
    {b : Block (Token π)} {alt : Option (Block (Token π))} (ht : t.kind = .kwIf)
    (hcond : ReadsWhole endPos ts c) (hcons : Reads endPos .block us b)
    (halt : Reads endPos .alternative vs alt) :
    Reads endPos (.expr .conditional) (t :: (ts ++ (us ++ vs))) (.cond t c b alt) := by
  refine ⟨t, _, rfl, ht, fun rest hrest => ?_⟩
  obtain ⟨o, r, rfl, ho, hblock⟩ := hcons
  have hread := expr_close_gives hcond (by decide) (by decide) ho (r ++ (vs ++ rest))
  rw [conditional, List.append_assoc, List.append_assoc, List.cons_append]
  refine hread.andThen _ fun _ => ?_
  refine (expect_gives ho _).andThen _ fun _ => ?_
  refine (hblock (vs ++ rest)).andThen _ fun _ => ?_
  exact ((halt rest hrest).map _).weaken _

theorem reads_elseBlock {ts : List (Token π)} {t : Token π} {b : Block (Token π)}
    (ht : t.kind = .kwElse) (h : Reads endPos .block ts b) :
    Reads endPos .alternative (t :: ts) (some b) := by
  intro rest _
  obtain ⟨o, r, rfl, ho, hblock⟩ := h
  have hne : o.kind ≠ .kwIf := by simp [ho]
  rw [List.cons_append, List.cons_append, alternative, if_pos ht, if_neg hne, if_pos ho]
  exact ((hblock rest).map _).weaken _

theorem reads_elseIf {ts : List (Token π)} {t u : Token π} {e : Expr (Token π)}
    (ht : t.kind = .kwElse) (h : Reads endPos (.expr .conditional) (u :: ts) e) :
    Reads endPos .alternative (t :: u :: ts) (some (.mk u [.expr u e])) := by
  intro rest hrest
  obtain ⟨u', r, heq, hu, hcond⟩ := h
  obtain ⟨rfl, rfl⟩ := List.cons.inj heq
  rw [List.cons_append, List.cons_append, alternative, if_pos ht, if_pos hu]
  exact ((hcond rest hrest).map _).weaken _

theorem alternative_gives_none {rest : List (Token π)} (h : Stops .index rest) :
    (alternative endPos rest).Gives none rest := by
  cases rest with
  | nil =>
      rw [alternative]
      exact Reply.gives_ok none [] _
  | cons t r =>
      have ht : t.kind ≠ .kwElse := (h t rfl).1
      rw [alternative.eq_def]
      simp only [ht, if_false]
      exact Reply.gives_ok none _ _

theorem reads_block {ts : List (Token π)} {o c : Token π} {ss : List (Stmt (Token π))}
    (ho : o.kind = .leftBrace) (hc : c.kind = .rightBrace)
    (h : Reads endPos .statements ts ss) :
    Reads endPos .block (o :: (ts ++ [c])) (.mk o ss) := by
  refine ⟨o, _, rfl, ho, fun rest => ?_⟩
  rw [List.append_assoc, block]
  exact (h.1 c rest hc).map _

/-! ### Lists -/

theorem reads_empty (item : Symbol π) : Reads endPos (.listOf item) [] [] := by
  cases item with
  | expr x =>
      cases x with
      | expression =>
          intro c rest _
          rw [List.nil_append, exprList, if_pos rfl]
          exact Reply.gives_ok [] rest _
      | _ => trivial
  | pair =>
      intro c rest hc
      rw [List.nil_append, pairs, if_pos hc]
      exact Reply.gives_ok [] rest _
  | name =>
      intro c rest hc
      rw [List.nil_append, params, if_pos hc]
      exact Reply.gives_ok [] rest _
  | _ => trivial

/-- A list with an item is not closed where its items begin. -/
theorem reads_items {item : Symbol π} {ts : List (Token π)} {as : List item.Tree}
    (d : Derivation (.separated item) ts as) (h : Reads endPos (.separated item) ts as) :
    Reads endPos (.listOf item) ts as := by
  have hbegin := d.begins
  cases item with
  | expr x =>
      cases x with
      | expression =>
          intro c rest hc
          obtain ⟨t, r, rfl, ht⟩ := hbegin _ rfl
          have hne : t.kind ≠ c.kind := by
            intro heq
            rw [heq] at ht
            rcases hc with hc | hc <;> simp [hc, Kind.startsExpr] at ht
          rw [List.cons_append, exprList, if_neg hne]
          exact h c rest hc
      | _ => trivial
  | pair =>
      intro c rest hc
      obtain ⟨t, r, rfl, ht⟩ := hbegin _ rfl
      have hne : t.kind ≠ .rightBrace := by
        intro heq
        simp [heq, Kind.startsExpr] at ht
      rw [List.cons_append, pairs, if_neg hne]
      exact h c rest hc
  | name =>
      intro c rest hc
      obtain ⟨t, r, rfl, ht⟩ := hbegin _ rfl
      have hne : t.kind ≠ .rightParen := by simp [eq_of_beq ht]
      rw [List.cons_append, params]
      simp only [hne, if_false]
      exact h c rest hc
  | _ => trivial

theorem reads_one {item : Symbol π} {ts : List (Token π)} {a : item.Tree}
    (h : Reads endPos item ts a) : Reads endPos (.separated item) ts [a] := by
  cases item with
  | expr x =>
      cases x with
      | expression =>
          intro c rest hc
          have hstops : Stops .lowest (c :: rest) := by
            rcases hc with hc | hc
            · exact stops_close (by decide) (by decide) hc rest
            · exact stops_close (by decide) (by decide) hc rest
          exact exprItems_gives h hstops (moreExprItems_close hc rfl rest)
      | _ => trivial
  | pair =>
      intro c rest hc
      refine pairItems_gives h (stops_close (by decide) (by decide) hc rest) ?_
      rw [morePairItems]
      simp only [hc, if_true]
      exact Reply.gives_ok [] rest _
  | name =>
      intro c rest hc
      obtain ⟨t, rfl, ht, rfl⟩ := h
      have hcomma : c.kind ≠ .comma := by simp [hc]
      rw [List.cons_append, List.nil_append, paramItems]
      simp only [ht, hcomma, if_true, if_false]
      exact ((expect_gives hc rest).map _).weaken _
  | _ => trivial

theorem reads_more {item : Symbol π} {ts us : List (Token π)} {t : Token π} {a : item.Tree}
    {as : List item.Tree} (h : Reads endPos item ts a) (ht : t.kind = .comma)
    (hmore : Reads endPos (.separated item) us as) :
    Reads endPos (.separated item) (ts ++ t :: us) (a :: as) := by
  have hstops : ∀ rest, Stops .lowest (t :: rest) := fun rest =>
    stops_close (by decide) (by decide) ht rest
  cases item with
  | expr x =>
      cases x with
      | expression =>
          intro c rest hc
          rw [List.append_assoc, List.cons_append]
          refine exprItems_gives h (hstops _) ?_
          rw [moreExprItems]
          simp only [ht, if_true]
          exact (hmore c rest hc).weaken _
      | _ => trivial
  | pair =>
      intro c rest hc
      have hbrace : t.kind ≠ .rightBrace := by simp [ht]
      rw [List.append_assoc, List.cons_append]
      refine pairItems_gives h (hstops _) ?_
      rw [morePairItems, if_neg hbrace, if_pos ht]
      exact (hmore c rest hc).weaken _
  | name =>
      intro c rest hc
      obtain ⟨u, rfl, hu, rfl⟩ := h
      rw [List.append_assoc, List.cons_append, List.cons_append, List.nil_append, paramItems]
      simp only [hu, ht, if_true]
      exact ((hmore c rest hc).map _).weaken _
  | _ => trivial

/-! ### Statements -/

/-- A statement that begins with the word for a declaration is one. -/
theorem statement_eq_declaration {t : Token π} {kind : BindingKind} (ht : t.kind = kind.kind)
    (r : List (Token π)) : statement endPos t r = declaration endPos kind t r := by
  cases kind with
  | var =>
      rw [statement]
      simp only [ht, BindingKind.kind]
  | val =>
      rw [statement]
      simp only [ht, BindingKind.kind]

/-- What does not begin with a word for another statement is read as an expression. -/
theorem statement_eq_expr {t : Token π} (hvar : t.kind ≠ .kwVar) (hval : t.kind ≠ .kwVal)
    (hret : t.kind ≠ .kwReturn) (r : List (Token π)) :
    statement endPos t r =
      (expr endPos .lowest (t :: r)).andThen (Nat.le_refl _) fun v rest h =>
        .ok (.expr t v) (skipSemicolon rest) (Nat.le_trans (length_skipSemicolon_le _) h) := by
  rw [statement]
  split
  · next h => exact absurd h hvar
  · next h => exact absurd h hval
  · next h => exact absurd h hret
  · rfl

theorem reads_declare {ts : List (Token π)} {t u v : Token π} {kind : BindingKind}
    {e : Expr (Token π)} (ht : t.kind = kind.kind) (hu : u.kind = .identifier)
    (hv : v.kind = .equal) (h : ReadsWhole endPos ts e) :
    Reads endPos .statement (t :: u :: v :: ts) (.declare kind t (identOf u) e) := by
  refine ⟨t, _, rfl, fun rest hrest => ?_⟩
  have hhead : (declarationHead endPos (u :: v :: ts ++ rest)).Gives (identOf u) (ts ++ rest) := by
    rw [declarationHead]
    exact (expect_gives hu _).andThen _ fun _ => ((expect_gives hv _).map _).weaken _
  rw [statement_eq_declaration ht, declaration]
  refine (hhead.recover _ _).andThen _ fun _ => ?_
  exact (h rest hrest).andThen _ fun _ => Reply.gives_ok _ _ _

theorem reads_ret {ts : List (Token π)} {t : Token π} {e : Expr (Token π)}
    (ht : t.kind = .kwReturn) (h : ReadsWhole endPos ts e) :
    Reads endPos .statement (t :: ts) (.ret t e) := by
  refine ⟨t, _, rfl, fun rest hrest => ?_⟩
  rw [statement]
  simp only [ht]
  exact (h rest hrest).andThen _ fun _ => Reply.gives_ok _ _ _

theorem reads_exprStmt {ts : List (Token π)} {t : Token π} {e : Expr (Token π)}
    (d : Derivation (.expr .expression) (t :: ts) e) (h : ReadsWhole endPos (t :: ts) e) :
    Reads endPos .statement (t :: ts) (.expr t e) := by
  refine ⟨t, _, rfl, fun rest hrest => ?_⟩
  obtain ⟨t', r, heq, ht⟩ := d.first rfl
  obtain ⟨rfl, rfl⟩ := List.cons.inj heq
  have hne {k : Kind} (hk : k.startsExpr = false) : t.kind ≠ k := by
    rintro rfl
    rw [hk] at ht
    cases ht
  rw [statement_eq_expr (hne rfl) (hne rfl) (hne rfl)]
  exact (h rest hrest).andThen _ fun _ => Reply.gives_ok _ _ _

theorem blockStatements_gives {t : Token π} {r rest rest' : List (Token π)} {s : Stmt (Token π)}
    {ss : List (Stmt (Token π))} (ht : t.kind.startsStmt = true)
    (hs : (statement endPos t r).Gives s rest)
    (hss : (blockStatements endPos rest).Gives ss rest') :
    (blockStatements endPos (t :: r)).Gives (s :: ss) rest' := by
  have hne : t.kind ≠ .rightBrace := by
    intro heq
    simp [heq, Kind.startsStmt, Kind.startsExpr] at ht
  rw [blockStatements, if_neg hne]
  exact hs.andThenAny fun _ => (hss.map _).weaken _

/-- What is read of a statement comes before what is read of the others. -/
theorem statements_of_reports {t : Token π} {r rest : List (Token π)} {s : Option (Stmt (Token π))}
    {es : List (ParseError π)} (h : (statement endPos t r).Reports s rest es) :
    statements endPos (t :: r) =
      (s.toList ++ (statements endPos rest).1, es ++ (statements endPos rest).2) := by
  rw [statements]
  simp only [h.result, h.rest, h.errors]

theorem statements_of_gives {t : Token π} {r rest : List (Token π)} {s : Stmt (Token π)}
    {ss : List (Stmt (Token π))} (hs : (statement endPos t r).Gives s rest)
    (hss : statements endPos rest = (ss, [])) : statements endPos (t :: r) = (s :: ss, []) := by
  rw [statements_of_reports hs.reports, hss]
  rfl

/-- Statements go on behind one of them, however that is ended. -/
theorem reads_statements {ts us vs : List (Token π)} {s : Stmt (Token π)}
    {ss : List (Stmt (Token π))} (d : Derivation .statement ts s)
    (h : Reads endPos .statement ts s)
    (hvs : ∀ c rest, c.kind = .rightBrace → Stops .lowest (vs ++ c :: rest) ∧
      skipSemicolon (vs ++ c :: rest) = us ++ c :: rest)
    (hvs' : Stops .lowest vs ∧ skipSemicolon vs = us) (hus : Reads endPos .statements us ss) :
    Reads endPos .statements (ts ++ vs) (s :: ss) := by
  obtain ⟨t, r, rfl, hs⟩ := h
  obtain ⟨t', r', heq, ht⟩ := d.first rfl
  obtain ⟨rfl, rfl⟩ := List.cons.inj heq
  refine ⟨fun c rest hc => ?_, ?_⟩
  · obtain ⟨hstops, hskip⟩ := hvs c rest hc
    have hread := hs _ hstops
    rw [hskip] at hread
    rw [List.append_assoc]
    exact blockStatements_gives ht hread (hus.1 c rest hc)
  · have hread := hs vs hvs'.1
    rw [hvs'.2] at hread
    exact statements_of_gives hread hus.2

theorem reads_ended {ts us : List (Token π)} {t : Token π} {s : Stmt (Token π)}
    {ss : List (Stmt (Token π))} (d : Derivation .statement ts s)
    (h : Reads endPos .statement ts s) (ht : t.kind = .semicolon)
    (hus : Reads endPos .statements us ss) :
    Reads endPos .statements (ts ++ t :: us) (s :: ss) := by
  have hstops : ∀ rest, Stops .lowest (t :: rest) := fun rest =>
    stops_close (by decide) (by decide) ht rest
  have hskip : ∀ rest, skipSemicolon (t :: rest) = rest := fun rest => by
    simp [skipSemicolon, ht]
  exact reads_statements d h (fun c rest _ => ⟨hstops _, hskip _⟩) ⟨hstops _, hskip _⟩ hus

/-- Statements that do not resume the one before them stop it. -/
theorem statements_stop {ts : List (Token π)} {ss : List (Stmt (Token π))}
    (d : Derivation .statements ts ss) (h : ¬Resumes ts) : Stops .lowest ts := by
  intro t ht
  have hstart : t.kind.startsStmt = true := d.statements_begin t ht
  refine ⟨?_, ?_⟩
  · intro heq
    rw [heq] at hstart
    exact absurd hstart (by decide)
  · rw [Kind.lowest_lt_precedence_iff]
    intro hcont
    exact h ⟨t, ht, Kind.resumes_of_startsStmt hstart hcont⟩

/-- Statements have no semicolon in front. -/
theorem skipSemicolon_statements {u : Token π} {us : List (Token π)} {ss : List (Stmt (Token π))}
    (d : Derivation .statements (u :: us) ss) (rest : List (Token π)) :
    skipSemicolon (u :: rest) = u :: rest := by
  have hstart := d.statements_begin u rfl
  refine if_neg fun heq => ?_
  rw [heq] at hstart
  exact absurd hstart (by decide)

/-- What does not resume a statement stops it, and has no semicolon in
front. -/
theorem reads_unended {ts us : List (Token π)} {s : Stmt (Token π)}
    {ss : List (Stmt (Token π))} (d : Derivation .statement ts s)
    (h : Reads endPos .statement ts s) (drest : Derivation .statements us ss)
    (hrest : ¬Resumes us) (hus : Reads endPos .statements us ss) :
    Reads endPos .statements (ts ++ us) (s :: ss) := by
  cases us with
  | nil =>
      refine reads_statements d h (fun c rest hc => ⟨?_, ?_⟩) ⟨stops_nil _, rfl⟩ hus
      · exact stops_close (by decide) (by decide) hc rest
      · simp [skipSemicolon, hc]
  | cons u us =>
      obtain ⟨helse, hcont⟩ := statements_stop drest hrest u rfl
      have hskip := skipSemicolon_statements drest
      refine reads_statements d h (fun c rest _ => ?_) ⟨stops_cons helse hcont, hskip _⟩ hus
      exact ⟨stops_cons helse hcont, hskip _⟩

end Reading

namespace Grammar

open Reading

variable {π : Type}

/-- A derivation is read as its tree. -/
theorem Derivation.reads (endPos : π) {s : Symbol π} {ts : List (Token π)} {e : s.Tree}
    (d : Derivation s ts e) : Reads endPos s ts e := by
  induction d with
  | assign _ ht _ ihTarget ihValue => exact reads_assign ihTarget ht ihValue
  | operation _ ih =>
      intro rest hrest
      exact ih .lowest rest (by decide) (hrest.mono (by decide)) _ rest (climb_gives hrest _)
  | level _ more ihFirst ihMore => exact reads_level ihFirst more ihMore
  | chainEnd => exact fun _ _ _ _ _ _ h => h
  | chainStep ht hl _ more ihOperand ihMore =>
      subst hl
      exact reads_chainStep ht ihOperand more ihMore
  | unaryStep ht _ ih => exact reads_unaryStep ht ih
  | unaryEnd _ ih => exact fun p rest hp hrest => ih p rest hp (hrest.mono (by decide))
  | postfixed _ more ihFirst ihMore => exact reads_postfixed ihFirst more ihMore
  | suffixEnd => exact fun _ _ _ _ _ _ h => h
  | callStep ho _ hc _ ihArgs ihMore => exact reads_callStep ho hc ihArgs ihMore
  | indexStep ho _ hc _ ihIndex ihMore => exact reads_indexStep ho hc ihIndex ihMore
  | ident ht =>
      refine ⟨_, [], rfl, fun rest _ => ?_⟩
      rw [List.nil_append, operand]
      simp only [ht]
      exact Reply.gives_ok _ rest _
  | int ht hn =>
      refine ⟨_, [], rfl, fun rest _ => ?_⟩
      rw [List.nil_append, operand]
      simp only [ht, hn]
      exact Reply.gives_ok _ rest _
  | str ht | yes ht | no ht =>
      refine ⟨_, [], rfl, fun rest _ => ?_⟩
      rw [List.nil_append, operand]
      simp only [ht]
      exact Reply.gives_ok _ rest _
  | group ho _ hc ih =>
      refine ⟨_, _, rfl, fun rest _ => ?_⟩
      rw [List.append_assoc]
      exact reads_group ho hc (expr_close_gives ih (by decide) (by decide) hc) rest
  | choice _ ih =>
      obtain ⟨t, r, rfl, ht, hcond⟩ := ih
      refine ⟨t, r, rfl, fun rest hrest => ?_⟩
      rw [operand]
      simp only [ht]
      exact hcond rest hrest
  | loop ht _ _ ihCond ihBody => exact reads_loop ht ihCond ihBody
  | func ht ho _ hc _ ihParams ihBody => exact reads_func ht ho hc ihParams ihBody
  | array ho _ hc ih =>
      refine ⟨_, _, rfl, fun rest _ => ?_⟩
      have hlist := ih _ rest (.inr hc)
      rw [hc] at hlist
      rw [List.append_assoc, operand]
      simp only [ho]
      exact hlist.map _
  | hash ho _ hc ih =>
      refine ⟨_, _, rfl, fun rest _ => ?_⟩
      rw [List.append_assoc, operand]
      simp only [ho]
      exact (ih _ rest hc).map _
  | conditional ht _ _ _ ihCond ihCons ihAlt => exact reads_conditional ht ihCond ihCons ihAlt
  | noElse => exact fun rest hrest => alternative_gives_none hrest
  | elseBlock ht _ ih => exact reads_elseBlock ht ih
  | elseIf ht _ ih => exact reads_elseIf ht ih
  | block ho _ hc ih => exact reads_block ho hc ih
  | targetName ht =>
      refine ⟨_, [], rfl, fun rest => ?_⟩
      rw [List.nil_append, operand]
      simp only [ht]
      exact Reply.gives_ok _ rest _
  | targetGroup ho _ hc ih => exact reads_targetGroup ho hc ih
  | name ht => exact ⟨_, rfl, ht, rfl⟩
  | pair _ ht _ ihKey ihValue => exact ⟨_, _, _, rfl, ht, ihKey, ihValue⟩
  | one _ ih => exact reads_one ih
  | more _ ht _ ih ihMore => exact reads_more ih ht ihMore
  | empty => exact reads_empty _
  | items d ih => exact reads_items d ih
  | declare ht hu hv _ ih => exact reads_declare ht hu hv ih
  | ret ht _ ih => exact reads_ret ht ih
  | expr d ih => exact reads_exprStmt d ih
  | noStatements =>
      refine ⟨fun c rest hc => ?_, by rw [statements]⟩
      rw [List.nil_append, blockStatements, if_pos hc]
      exact Reply.gives_ok [] rest _
  | ended first ht _ ihFirst ihRest => exact reads_ended first ihFirst ht ihRest
  | unended first rest hrest ihFirst ihRest => exact reads_unended first ihFirst rest hrest ihRest

end Grammar

end MonkeyLang
