import MonkeyLang.Proofs.Reading.Call

/-!
# The trail of a parser

What a parser does with the tokens that it is given is told by a trail: at each token in
hand it notes some errors, and then it passes over the token or leaves it for what comes
next.  So its errors are noted in the order of the tokens on which they sit, and each
sits on one of the tokens or on their end.

A parser that builds nothing has noted an error.
-/

namespace MonkeyLang

namespace Reading

variable {π α β : Type}

/-- The place of the token in hand. -/
def placeOf (endPos : π) : List (Token π) → π
  | [] => endPos
  | t :: _ => t.pos

/-- On the way from some tokens to the tokens that are left, errors are noted on the tokens
in hand. -/
inductive Trail (endPos : π) : List (Token π) → List (Token π) → List (ParseError π) → Prop
  | done {ts : List (Token π)} : Trail endPos ts ts []
  | pass {t : Token π} {ts us : List (Token π)} {es : List (ParseError π)}
      (h : Trail endPos ts us es) : Trail endPos (t :: ts) us es
  | note {cause : ParseError.Cause} {ts us : List (Token π)} {es : List (ParseError π)}
      (h : Trail endPos ts us es) : Trail endPos ts us (⟨cause, placeOf endPos ts⟩ :: es)

variable {endPos : π} {n m : Nat} {ts us vs : List (Token π)} {es fs : List (ParseError π)}

namespace Trail

theorem trans (h : Trail endPos ts us es) (h' : Trail endPos us vs fs) :
    Trail endPos ts vs (es ++ fs) := by
  induction h with
  | done => exact h'
  | pass _ ih => exact .pass (ih h')
  | note _ ih => exact .note (ih h')

theorem suffix (h : Trail endPos ts us es) : us <:+ ts := by
  induction h with
  | done => exact List.suffix_refl _
  | pass _ ih => exact ih.trans (List.suffix_cons _ _)
  | note _ ih => exact ih

theorem of_suffix (h : us <:+ ts) : Trail endPos ts us [] := by
  induction ts with
  | nil =>
      rw [List.suffix_nil.mp h]
      exact .done
  | cons t ts ih =>
      rcases List.suffix_cons_iff.mp h with rfl | h
      · exact .done
      · exact .pass (ih h)

/-- An error on the token in hand. -/
theorem single (cause : ParseError.Cause) (h : us <:+ ts) :
    Trail endPos ts us [⟨cause, placeOf endPos ts⟩] :=
  .note (.of_suffix h)

end Trail

/-- The answer to reading the tokens `ts`: its errors are noted on the way through them, and
there are some if nothing was built. -/
structure Recorded (endPos : π) (ts : List (Token π)) (x : Answer π α) : Prop where
  trail : Trail endPos ts x.rest x.errors
  error_of_none : x.result = none → x.errors ≠ []

theorem Recorded.suffix {x : Reply π α n} {a : α} (hx : Recorded endPos ts x.answer)
    (h : x.Yields a us) : us <:+ ts :=
  h.rest ▸ hx.trail.suffix

/-! ## Ways of putting parsers together -/

theorem recorded_ok {a : α} (h : us.length ≤ n) (hts : us <:+ ts) :
    Recorded endPos ts (Reply.ok a us h).answer :=
  ⟨.of_suffix hts, fun hnone => absurd hnone (Option.some_ne_none a)⟩

theorem recorded_fail {cause : ParseError.Cause} {pos : π} (h : us.length ≤ n) (hts : us <:+ ts)
    (hpos : pos = placeOf endPos ts) :
    Recorded endPos ts (Reply.fail cause pos us h : Reply π α n).answer := by
  subst hpos
  exact ⟨.single cause hts, fun _ => List.cons_ne_nil _ _⟩

theorem Recorded.map {x : Reply π α n} (hx : Recorded endPos ts x.answer) (f : α → β) :
    Recorded endPos ts (x.map f).answer :=
  ⟨hx.trail, fun hnone => hx.error_of_none (Option.map_eq_none_iff.mp hnone)⟩

theorem Recorded.andThen {x : Reply π α n}
    {f : α → (rest : List (Token π)) → rest.length ≤ n → Reply π β m}
    (hx : Recorded endPos ts x.answer) (h : n ≤ m)
    (hf : ∀ a rest (hr : rest.length ≤ n), x.Yields a rest →
      Recorded endPos rest (f a rest hr).answer) :
    Recorded endPos ts (x.andThen h f).answer := by
  obtain ⟨result, rest, errors, hle⟩ := x
  cases result with
  | none => exact ⟨hx.trail, fun _ => hx.error_of_none rfl⟩
  | some a =>
      obtain ⟨htrail, herror⟩ := hf a rest hle ⟨rfl, rfl⟩
      exact ⟨hx.trail.trans htrail,
        fun hnone => List.append_ne_nil_of_right_ne_nil _ (herror hnone)⟩

theorem Recorded.andThenAny {x : Reply π α n}
    {f : Option α → (rest : List (Token π)) → rest.length ≤ n → Reply π β m}
    (hx : Recorded endPos ts x.answer)
    (hf : ∀ a rest (hr : rest.length ≤ n), Recorded endPos rest (f a rest hr).answer) :
    Recorded endPos ts (x.andThenAny f).answer := by
  obtain ⟨result, rest, errors, hle⟩ := x
  obtain ⟨htrail, herror⟩ := hf result rest hle
  exact ⟨hx.trail.trans htrail, fun hnone => List.append_ne_nil_of_right_ne_nil _ (herror hnone)⟩

theorem Recorded.recover {x : Reply π α n} (hx : Recorded endPos ts x.answer)
    {skip : List (Token π) → List (Token π)} (h : ∀ ts, (skip ts).length ≤ ts.length)
    (hskip : ∀ ts, skip ts <:+ ts) : Recorded endPos ts (x.recover skip h).answer := by
  obtain ⟨result, rest, errors, hle⟩ := x
  cases result with
  | none =>
      refine ⟨?_, hx.error_of_none⟩
      have htrail := hx.trail.trans (.of_suffix (hskip rest))
      rwa [List.append_nil] at htrail
  | some a => exact ⟨hx.trail, hx.error_of_none⟩

/-- A token in hand is passed over first. -/
theorem Recorded.pass {t : Token π} {x : Answer π α} (hx : Recorded endPos ts x) :
    Recorded endPos (t :: ts) x :=
  ⟨.pass hx.trail, hx.error_of_none⟩

theorem unexpected_recorded (want : Kind) (ts : List (Token π)) :
    Recorded endPos ts (unexpected (α := α) endPos want ts).answer := by
  cases ts with
  | nil => exact recorded_fail _ (List.suffix_refl _) rfl
  | cons t r => exact recorded_fail _ (List.suffix_refl _) rfl

theorem expect_recorded (want : Kind) (ts : List (Token π)) :
    Recorded endPos ts (expect endPos want ts).answer := by
  cases ts with
  | nil => exact unexpected_recorded _ _
  | cons t r =>
      rw [expect]
      split
      · exact recorded_ok _ (List.suffix_cons _ _)
      · exact unexpected_recorded _ _

theorem skipSemicolon_suffix (ts : List (Token π)) : skipSemicolon ts <:+ ts := by
  cases ts with
  | nil => exact List.suffix_refl _
  | cons t r =>
      rw [skipSemicolon]
      split
      · exact List.suffix_cons _ _
      · exact List.suffix_refl _

theorem skipStatement_suffix (ts : List (Token π)) : skipStatement ts <:+ ts :=
  (skipSemicolon_suffix _).trans (List.dropWhile_suffix _)

theorem declarationHead_recorded (ts : List (Token π)) :
    Recorded endPos ts (declarationHead endPos ts).answer :=
  (expect_recorded _ _).andThen _ fun _ r _ _ => (expect_recorded _ r).map _

/-! ## Every call

The answers to the calls that are nearer to their end than the one at hand are taken as
recorded. -/

/-- All calls of less than a given height are answered by what is recorded. -/
def RecordedBelow (endPos : π) (h : Nat) : Prop :=
  ∀ d : Call π, d.height < h → Recorded endPos d.tokens (d.answer endPos)

section

variable {t : Token π} {r : List (Token π)}

theorem expr_recorded (p : Precedence) (ih : RecordedBelow endPos (Call.expr p ts).height) :
    Recorded endPos ts (expr endPos p ts).answer := by
  cases ts with
  | nil =>
      rw [expr]
      exact recorded_fail _ (List.suffix_refl _) rfl
  | cons t r =>
      rw [expr]
      refine (ih (.operand t r) (by simp)).andThen _ fun left rest hr _ => ?_
      exact ih (.climb p left rest) (by grind)

theorem operand_recorded (ih : RecordedBelow endPos (Call.operand t r).height) :
    Recorded endPos (t :: r) (operand endPos t r).answer := by
  have exprs (p : Precedence) := ih (.expr p r) (by grind)
  rw [operand]
  split
  · exact recorded_ok _ (List.suffix_cons _ _)
  · split
    · exact recorded_ok _ (List.suffix_cons _ _)
    · exact recorded_fail _ (List.suffix_cons _ _) rfl
  · exact recorded_ok _ (List.suffix_cons _ _)
  · exact recorded_ok _ (List.suffix_cons _ _)
  · exact recorded_ok _ (List.suffix_cons _ _)
  · exact (exprs _).pass.map _
  · exact (exprs _).pass.map _
  · exact (exprs _).pass.andThen _ fun e rest _ _ => (expect_recorded _ rest).map _
  · exact ih (.conditional t r) (by simp)
  · refine (exprs _).pass.andThen _ fun c r₁ hr₁ _ => ?_
    refine (expect_recorded _ r₁).andThen _ fun brace r₂ hr₂ _ => ?_
    exact (ih (.block brace r₂) (by grind)).map _
  · refine (expect_recorded _ r).pass.andThen _ fun _ r₁ hr₁ _ => ?_
    refine (ih (.params r₁) (by grind)).andThen _ fun ps r₂ hr₂ _ => ?_
    refine (expect_recorded _ r₂).andThen _ fun brace r₃ hr₃ _ => ?_
    exact (ih (.block brace r₃) (by grind)).map _
  · exact (ih (.exprList .rightBracket r) (by grind)).pass.map _
  · exact (ih (.pairs r) (by grind)).pass.map _
  · exact recorded_fail _ (List.suffix_cons _ _) rfl
  · exact recorded_fail _ (List.suffix_cons _ _) rfl

theorem climb_recorded (p : Precedence) (left : Expr (Token π))
    (ih : RecordedBelow endPos (Call.climb p left ts).height) :
    Recorded endPos ts (climb endPos p left ts).answer := by
  cases ts with
  | nil =>
      rw [climb]
      exact recorded_ok _ (List.suffix_refl _)
  | cons t r =>
      rw [climb]
      split
      · exact recorded_ok _ (List.suffix_refl _)
      · next c _ =>
        split
        · refine (ih (.extend left c t r) (by simp)).andThen _ fun left' rest hr _ => ?_
          exact ih (.climb p left' rest) (by grind)
        · exact recorded_ok _ (List.suffix_refl _)

theorem extend_recorded (left : Expr (Token π)) (c : Continuation)
    (ih : RecordedBelow endPos (Call.extend left c t r).height) :
    Recorded endPos (t :: r) (extend endPos left c t r).answer := by
  have exprs (p : Precedence) := ih (.expr p r) (by grind)
  cases c with
  | binary op =>
      rw [extend]
      exact (exprs _).pass.map _
  | assign =>
      cases left with
      | ident id =>
          rw [extend]
          exact (exprs _).pass.map _
      | _ =>
          -- the error sits on the equals sign, which is passed over after it
          rw [extend.eq_def]
          exact ⟨.note (.pass (exprs _).trail), fun _ => List.cons_ne_nil _ _⟩
  | call =>
      rw [extend]
      exact (ih (.exprList .rightParen r) (by grind)).pass.map _
  | index =>
      rw [extend]
      exact (exprs _).pass.andThen _ fun i rest _ _ => (expect_recorded _ rest).map _

theorem conditional_recorded (ih : RecordedBelow endPos (Call.conditional t r).height) :
    Recorded endPos (t :: r) (conditional endPos t r).answer := by
  rw [conditional]
  refine (ih (.expr .lowest r) (by grind)).pass.andThen _ fun c r₁ hr₁ _ => ?_
  refine (expect_recorded _ r₁).andThen _ fun brace r₂ hr₂ _ => ?_
  refine (ih (.block brace r₂) (by grind)).andThen _ fun b r₃ hr₃ _ => ?_
  exact (ih (.alternative r₃) (by grind)).map _

theorem alternative_recorded (ih : RecordedBelow endPos (Call.alternative ts).height) :
    Recorded endPos ts (alternative endPos ts).answer := by
  rcases ts with _ | ⟨t, _ | ⟨u, more⟩⟩
  · rw [alternative]
    exact recorded_ok _ (List.suffix_refl _)
  · rw [alternative]
    split
    · exact (unexpected_recorded _ []).pass
    · exact recorded_ok _ (List.suffix_refl _)
  · rw [alternative]
    split
    · split
      · exact (ih (.conditional u more) (by simp)).pass.map _
      · split
        · exact (ih (.block u more) (by grind)).pass.pass.map _
        · exact (unexpected_recorded _ (u :: more)).pass
    · exact recorded_ok _ (List.suffix_refl _)

theorem block_recorded (brace : Token π) (ih : RecordedBelow endPos (Call.block brace ts).height) :
    Recorded endPos ts (block endPos brace ts).answer := by
  rw [block]
  exact (ih (.blockStatements ts) (by simp)).map _

theorem blockStatements_recorded (ih : RecordedBelow endPos (Call.blockStatements ts).height) :
    Recorded endPos ts (blockStatements endPos ts).answer := by
  cases ts with
  | nil =>
      rw [blockStatements]
      exact ⟨.single _ (List.suffix_refl _), fun _ => List.cons_ne_nil _ _⟩
  | cons t r =>
      rw [blockStatements]
      split
      · exact recorded_ok _ (List.suffix_cons _ _)
      · refine (ih (.statement t r) (by simp)).andThenAny fun s rest hr => ?_
        exact (ih (.blockStatements rest) (by grind)).map _

/-- Behind an expression there may be a semicolon. -/
theorem Recorded.ended {x : Reply π (Expr (Token π)) n} (hx : Recorded endPos ts x.answer)
    (h : n ≤ m) (f : Expr (Token π) → β)
    (hle : ∀ rest : List (Token π), rest.length ≤ n → (skipSemicolon rest).length ≤ m) :
    Recorded endPos ts (x.andThen h fun v rest hr =>
      .ok (f v) (skipSemicolon rest) (hle rest hr)).answer :=
  hx.andThen _ fun _ rest _ _ => recorded_ok _ (skipSemicolon_suffix rest)

theorem statement_recorded (ih : RecordedBelow endPos (Call.statement t r).height) :
    Recorded endPos (t :: r) (statement endPos t r).answer := by
  rw [statement]
  split
  · exact ih (.declaration .var t r) (by simp)
  · exact ih (.declaration .val t r) (by simp)
  · exact (ih (.expr .lowest r) (by grind)).pass.ended _ _ _
  · exact (ih (.expr .lowest (t :: r)) (by simp)).ended _ _ _

theorem declaration_recorded (kind : BindingKind)
    (ih : RecordedBelow endPos (Call.declaration kind t r).height) :
    Recorded endPos (t :: r) (declaration endPos kind t r).answer := by
  rw [declaration]
  have hhead : Recorded endPos r ((declarationHead endPos r).recover skipStatement
      length_skipStatement_le).answer :=
    (declarationHead_recorded r).recover length_skipStatement_le skipStatement_suffix
  refine hhead.pass.andThen _ fun name r₁ hr₁ _ => ?_
  exact (ih (.expr .lowest r₁) (by grind)).ended _ _ _

theorem paramItems_recorded (ts : List (Token π)) :
    Recorded endPos ts (paramItems endPos ts).answer := by
  fun_induction paramItems endPos ts with
  | case1 => exact unexpected_recorded _ _
  | case2 t _ => exact (expect_recorded _ []).pass.map fun _ => [identOf t]
  | case3 => exact unexpected_recorded _ _
  | case4 t c r _ _ ih => exact ih.pass.pass.map (identOf t :: ·)
  | case5 t c r _ _ => exact (expect_recorded _ (c :: r)).pass.map fun _ => [identOf t]
  | case6 => exact unexpected_recorded _ _

theorem params_recorded (ts : List (Token π)) : Recorded endPos ts (params endPos ts).answer := by
  cases ts with
  | nil => exact paramItems_recorded []
  | cons t r =>
      rw [params]
      split
      · exact recorded_ok _ (List.suffix_cons _ _)
      · exact paramItems_recorded _

theorem exprList_recorded (close : Kind)
    (ih : RecordedBelow endPos (Call.exprList close ts).height) :
    Recorded endPos ts (exprList endPos close ts).answer := by
  have items := ih (.exprItems close ts) (by simp)
  cases ts with
  | nil =>
      rw [exprList]
      exact items
  | cons t r =>
      rw [exprList]
      split
      · exact recorded_ok _ (List.suffix_cons _ _)
      · exact items

theorem exprItems_recorded (close : Kind)
    (ih : RecordedBelow endPos (Call.exprItems close ts).height) :
    Recorded endPos ts (exprItems endPos close ts).answer := by
  rw [exprItems]
  refine (ih (.expr .lowest ts) (by simp)).andThen _ fun e rest hr _ => ?_
  exact (ih (.moreExprItems close rest) (by grind)).map _

theorem moreExprItems_recorded (close : Kind)
    (ih : RecordedBelow endPos (Call.moreExprItems close ts).height) :
    Recorded endPos ts (moreExprItems endPos close ts).answer := by
  cases ts with
  | nil =>
      rw [moreExprItems]
      exact unexpected_recorded _ _
  | cons t r =>
      rw [moreExprItems]
      split
      · exact (ih (.exprItems close r) (by grind)).pass
      · exact (expect_recorded _ _).map _

theorem pairs_recorded (ih : RecordedBelow endPos (Call.pairs ts).height) :
    Recorded endPos ts (pairs endPos ts).answer := by
  have items := ih (.pairItems ts) (by simp)
  cases ts with
  | nil =>
      rw [pairs]
      exact items
  | cons t r =>
      rw [pairs]
      split
      · exact recorded_ok _ (List.suffix_cons _ _)
      · exact items

theorem pairItems_recorded (ih : RecordedBelow endPos (Call.pairItems ts).height) :
    Recorded endPos ts (pairItems endPos ts).answer := by
  rw [pairItems]
  refine (ih (.expr .lowest ts) (by simp)).andThen _ fun k r₁ hr₁ _ => ?_
  refine (expect_recorded _ r₁).andThen _ fun _ r₂ hr₂ _ => ?_
  refine (ih (.expr .lowest r₂) (by grind)).andThen _ fun v r₃ hr₃ _ => ?_
  exact (ih (.morePairItems r₃) (by grind)).map _

theorem morePairItems_recorded (ih : RecordedBelow endPos (Call.morePairItems ts).height) :
    Recorded endPos ts (morePairItems endPos ts).answer := by
  cases ts with
  | nil =>
      rw [morePairItems]
      exact unexpected_recorded _ _
  | cons t r =>
      rw [morePairItems]
      split
      · exact recorded_ok _ (List.suffix_cons _ _)
      · split
        · exact (ih (.pairItems r) (by grind)).pass
        · exact unexpected_recorded _ _

theorem statements_recorded (ih : RecordedBelow endPos (Call.statements ts).height) :
    Recorded endPos ts (Call.answer endPos (.statements ts)) := by
  refine ⟨?_, fun hnone => absurd hnone (Option.some_ne_none _)⟩
  cases ts with
  | nil =>
      rw [Call.answer, statements]
      exact .done
  | cons t r =>
      have hle := (statement endPos t r).length_le
      have hfirst := ih (.statement t r) (by simp)
      have hlater := ih (.statements (statement endPos t r).rest) (by grind)
      rw [Call.answer, statements]
      exact hfirst.trail.trans hlater.trail

end

/-- Whatever parser is called on whatever tokens, its errors are noted on the way through
them, and there are some if it builds nothing. -/
theorem Call.recorded (endPos : π) (c : Call π) : Recorded endPos c.tokens (c.answer endPos) := by
  have below : ∀ h, RecordedBelow (π := π) endPos h := by
    intro h
    induction h with
    | zero => exact fun d hd => absurd hd (Nat.not_lt_zero _)
    | succ h ih =>
        intro d hd
        have ih : RecordedBelow endPos d.height := fun e he => ih e (by omega)
        cases d with
        | expr p ts => exact expr_recorded p ih
        | operand t r => exact operand_recorded ih
        | climb p left ts => exact climb_recorded p left ih
        | extend left c t r => exact extend_recorded left c ih
        | conditional t r => exact conditional_recorded ih
        | alternative ts => exact alternative_recorded ih
        | block brace ts => exact block_recorded brace ih
        | blockStatements ts => exact blockStatements_recorded ih
        | statement t r => exact statement_recorded ih
        | declaration kind t r => exact declaration_recorded kind ih
        | skipStatement ts =>
            exact ⟨.of_suffix (skipStatement_suffix ts),
              fun hnone => absurd hnone (Option.some_ne_none _)⟩
        | params ts => exact params_recorded ts
        | paramItems ts => exact paramItems_recorded ts
        | exprList close ts => exact exprList_recorded close ih
        | exprItems close ts => exact exprItems_recorded close ih
        | moreExprItems close ts => exact moreExprItems_recorded close ih
        | pairs ts => exact pairs_recorded ih
        | pairItems ts => exact pairItems_recorded ih
        | morePairItems ts => exact morePairItems_recorded ih
        | statements ts => exact statements_recorded ih
  exact below (c.height + 1) c (Nat.lt_succ_self _)

end Reading

end MonkeyLang
