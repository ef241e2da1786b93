import MonkeyLang.Proofs.Reading.Call

/-!
# Parsers by general recursion

The parsers once more, with nothing in them that says that they end.  `Call.body` is what
a parser does itself: it asks other parsers, in whatever way it is told to, and makes its
own answer of theirs.  Where asking means to do the same again, the parsers call each
other freely; `Call.upTo` cuts them off at a depth.

A parser asks for nothing but the calls that it makes, so once these are answered it has
its answer.
-/

namespace MonkeyLang

namespace Reading

variable {π α β : Type} {n m : Nat}

/-- An answer, unless a call on the way has not been answered. -/
abbrev Attempt (π α : Type) :=
  Option (Answer π α)

namespace Attempt

def ok (a : α) (rest : List (Token π)) : Attempt π α :=
  some ⟨some a, rest, []⟩

def fail (cause : ParseError.Cause) (pos : π) (rest : List (Token π)) : Attempt π α :=
  some ⟨none, rest, [⟨cause, pos⟩]⟩

/-- What needs no other call. -/
def reply (x : Reply π α n) : Attempt π α :=
  some x.answer

/-- The answer behind some errors. -/
def behind (es : List (ParseError π)) (x : Attempt π α) : Attempt π α :=
  Option.map (fun a => ⟨a.result, a.rest, es ++ a.errors⟩) x

def map (f : α → β) (x : Attempt π α) : Attempt π β :=
  Option.map (fun a => ⟨a.result.map f, a.rest, a.errors⟩) x

/-- Goes on in any case, with a result or without one. -/
def andThenAny (x : Attempt π α) (f : Option α → List (Token π) → Attempt π β) : Attempt π β :=
  x.bind fun a => behind a.errors (f a.result a.rest)

/-- Goes on with the result, and fails where there is none. -/
def andThen (x : Attempt π α) (f : α → List (Token π) → Attempt π β) : Attempt π β :=
  x.andThenAny fun
    | some a, rest => f a rest
    | none, rest => some ⟨none, rest, []⟩

/-- Passes over some of the tokens left where there is no result. -/
def recover (x : Attempt π α) (pass : List (Token π) → Attempt π Unit) : Attempt π α :=
  x.bind fun a =>
    match a.result with
    | none => (pass a.rest).bind fun b => some ⟨none, b.rest, a.errors ++ b.errors⟩
    | some _ => some a

theorem map_eq {x : Attempt π α} {y : Reply π α n} (hx : x = some y.answer) (f : α → β) :
    x.map f = some (y.map f).answer := by
  subst hx
  rfl

theorem andThenAny_eq {x : Attempt π α} {y : Reply π α n}
    {f : Option α → List (Token π) → Attempt π β}
    {g : Option α → (rest : List (Token π)) → rest.length ≤ n → Reply π β m}
    (hx : x = some y.answer)
    (hf : ∀ hr, f y.result y.rest = some (g y.result y.rest hr).answer) :
    x.andThenAny f = some (y.andThenAny g).answer := by
  subst hx
  change behind y.errors (f y.result y.rest) = _
  rw [hf y.length_le]
  rfl

theorem andThen_eq {x : Attempt π α} {y : Reply π α n} {f : α → List (Token π) → Attempt π β}
    {g : α → (rest : List (Token π)) → rest.length ≤ n → Reply π β m} (hx : x = some y.answer)
    (h : n ≤ m)
    (hf : ∀ a rest hr, y.Yields a rest → f a rest = some (g a rest hr).answer) :
    x.andThen f = some (y.andThen h g).answer := by
  obtain ⟨result, rest, errors, hle⟩ := y
  subst hx
  cases result with
  | none =>
      change some (⟨none, rest, errors ++ []⟩ : Answer π β) = _
      rw [List.append_nil]
      rfl
  | some a =>
      change behind errors (f a rest) = _
      rw [hf a rest hle ⟨rfl, rfl⟩]
      rfl

theorem recover_eq {x : Attempt π α} {y : Reply π α n} {pass : List (Token π) → Attempt π Unit}
    {skip : List (Token π) → List (Token π)} (hx : x = some y.answer)
    (h : ∀ ts, (skip ts).length ≤ ts.length)
    (hpass : y.result = none → pass y.rest = some ⟨some (), skip y.rest, []⟩) :
    x.recover pass = some (y.recover skip h).answer := by
  obtain ⟨result, rest, errors, hle⟩ := y
  subst hx
  cases result with
  | none =>
      have hskip : pass rest = some ⟨some (), skip rest, []⟩ := hpass rfl
      change (pass rest).bind _ = _
      rw [hskip, Option.bind_some, List.append_nil]
      rfl
  | some a => rfl

end Attempt

theorem expect_yields {endPos : π} {want : Kind} {ts rest : List (Token π)} {t : Token π}
    (h : (expect endPos want ts).Yields t rest) : ts = t :: rest ∧ t.kind = want := by
  obtain ⟨hresult, hrest⟩ := h
  cases ts with
  | nil => cases hresult
  | cons u r =>
      rw [expect] at hresult hrest
      split at hresult
      · next hu =>
        rw [if_pos hu] at hrest
        obtain rfl := Option.some.inj hresult
        exact ⟨congrArg _ hrest, hu⟩
      · cases hresult

namespace Call

open Attempt (reply ok fail)

/-- What the parser that is called does, where `ask` is how it calls others. -/
def body (endPos : π) (ask : (d : Call π) → Attempt π d.Result) :
    (c : Call π) → Attempt π c.Result
  | expr _ [] => fail (.noOperand .eof) endPos []
  | expr p (t :: r) => (ask (operand t r)).andThen fun left rest => ask (climb p left rest)
  | operand t r =>
    match t.kind with
    | .identifier => ok (.ident (identOf t)) r
    | .integer =>
      match integer? t.literal with
      | some n => ok (.int t n) r
      | none => fail (.integerOutOfRange t.literal) t.pos r
    | .string => ok (.str t t.literal) r
    | .kwTrue => ok (.bool t true) r
    | .kwFalse => ok (.bool t false) r
    | .bang => (ask (expr .unary r)).map (.unary t .not)
    | .minus => (ask (expr .unary r)).map (.unary t .negate)
    | .leftParen =>
      (ask (expr .lowest r)).andThen fun e rest =>
        (reply (expect endPos .rightParen rest)).map fun _ => e
    | .kwIf => ask (conditional t r)
    | .kwWhile =>
      (ask (expr .lowest r)).andThen fun c r₁ =>
        (reply (expect endPos .leftBrace r₁)).andThen fun brace r₂ =>
          (ask (block brace r₂)).map (.loop t c)
    | .kwFunc =>
      (reply (expect endPos .leftParen r)).andThen fun _ r₁ =>
        (ask (params r₁)).andThen fun ps r₂ =>
          (reply (expect endPos .leftBrace r₂)).andThen fun brace r₃ =>
            (ask (block brace r₃)).map (.func t ps)
    | .leftBracket => (ask (exprList .rightBracket r)).map (.array t)
    | .leftBrace => (ask (pairs r)).map (.hash t)
    | .illegal => fail (.illegalCharacter t.literal) t.pos r
    | k => fail (.noOperand k) t.pos r
  | climb _ left [] => ok left []
  | climb p left (t :: r) =>
    match Continuation.ofKind? t.kind with
    | none => ok left (t :: r)
    | some c =>
      if p < c.precedence then
        (ask (extend left c t r)).andThen fun left' rest => ask (climb p left' rest)
      else ok left (t :: r)
  | extend left (.binary op) t r => (ask (expr op.precedence r)).map (.binary t op left)
  | extend left .assign t r =>
    match left with
    | .ident id => (ask (expr .lowest r)).map (.assign t id)
    | target =>
      Attempt.behind [⟨.notAssignable target.render, t.pos⟩] <|
        (ask (expr .lowest r)).andThenAny fun _ rest => some ⟨none, rest, []⟩
  | extend left .call t r => (ask (exprList .rightParen r)).map (.call t left)
  | extend left .index t r =>
    (ask (expr .lowest r)).andThen fun i rest =>
      (reply (expect endPos .rightBracket rest)).map fun _ => .index t left i
  | conditional t r =>
    (ask (expr .lowest r)).andThen fun c r₁ =>
      (reply (expect endPos .leftBrace r₁)).andThen fun brace r₂ =>
        (ask (block brace r₂)).andThen fun b r₃ =>
          (ask (alternative r₃)).map (.cond t c b)
  | alternative [] => ok none []
  | alternative (t :: r) =>
    if t.kind = .kwElse then
      match r with
      | [] => reply (unexpected endPos .leftBrace [])
      | u :: more =>
        if u.kind = .kwIf then
          (ask (conditional u more)).map fun e => some (.mk u [.expr u e])
        else if u.kind = .leftBrace then (ask (block u more)).map some
        else reply (unexpected endPos .leftBrace (u :: more))
    else ok none (t :: r)
  | block brace ts => (ask (blockStatements ts)).map (.mk brace)
  | blockStatements [] => some ⟨some [], [], [⟨.unclosedBlock, endPos⟩]⟩
  | blockStatements (t :: r) =>
    if t.kind = .rightBrace then ok [] r
    else
      (ask (statement t r)).andThenAny fun s rest =>
        (ask (blockStatements rest)).map (s.toList ++ ·)
  | statement t r =>
    match t.kind with
    | .kwVar => ask (declaration .var t r)
    | .kwVal => ask (declaration .val t r)
    | .kwReturn =>
      (ask (expr .lowest r)).andThen fun v rest => ok (.ret t v) (skipSemicolon rest)
    | _ =>
      (ask (expr .lowest (t :: r))).andThen fun v rest => ok (.expr t v) (skipSemicolon rest)
  | declaration kind t r =>
    ((reply (declarationHead endPos r)).recover fun r₁ => ask (skipStatement r₁)).andThen
      fun name r₁ =>
        (ask (expr .lowest r₁)).andThen fun v rest =>
          ok (.declare kind t name v) (skipSemicolon rest)
  | skipStatement [] => ok () []
  | skipStatement (t :: r) =>
    if t.kind = .semicolon then ok () r
    else if t.kind = .rightBrace then ok () (t :: r)
    else ask (skipStatement r)
  | params [] => ask (paramItems [])
  | params (t :: r) => if t.kind = .rightParen then ok [] r else ask (paramItems (t :: r))
  | paramItems [] => reply (unexpected endPos .identifier [])
  | paramItems (t :: r) =>
    if t.kind = .identifier then
      match r with
      | [] => (reply (expect endPos .rightParen [])).map fun _ => [identOf t]
      | c :: r' =>
        if c.kind = .comma then (ask (paramItems r')).map (identOf t :: ·)
        else (reply (expect endPos .rightParen (c :: r'))).map fun _ => [identOf t]
    else reply (unexpected endPos .identifier (t :: r))
  | exprList close [] => ask (exprItems close [])
  | exprList close (t :: r) =>
    if t.kind = close then ok [] r else ask (exprItems close (t :: r))
  | exprItems close ts =>
    (ask (expr .lowest ts)).andThen fun e rest =>
      (ask (moreExprItems close rest)).map (e :: ·)
  | moreExprItems close [] => reply (unexpected endPos close [])
  | moreExprItems close (t :: r) =>
    if t.kind = .comma then ask (exprItems close r)
    else (reply (expect endPos close (t :: r))).map fun _ => []
  | pairs [] => ask (pairItems [])
  | pairs (t :: r) => if t.kind = .rightBrace then ok [] r else ask (pairItems (t :: r))
  | pairItems ts =>
    (ask (expr .lowest ts)).andThen fun k r₁ =>
      (reply (expect endPos .colon r₁)).andThen fun _ r₂ =>
        (ask (expr .lowest r₂)).andThen fun v r₃ =>
          (ask (morePairItems r₃)).map ((k, v) :: ·)
  | morePairItems [] => reply (unexpected endPos .comma [])
  | morePairItems (t :: r) =>
    if t.kind = .rightBrace then ok [] r
    else if t.kind = .comma then ask (pairItems r)
    else reply (unexpected endPos .comma (t :: r))
  | statements [] => ok [] []
  | statements (t :: r) =>
    (ask (statement t r)).andThenAny fun s rest =>
      (ask (statements rest)).map (s.toList ++ ·)

/-- The answer to a call in which calls are made to a depth of less than `n`. -/
def upTo (endPos : π) : Nat → (c : Call π) → Attempt π c.Result
  | 0, _ => none
  | n + 1, c => body endPos (upTo endPos n) c

/-! ## The answers of bodies

A call whose own calls have their answers has its answer. -/

variable {endPos : π} {ask : (d : Call π) → Attempt π d.Result}

/-- The calls that a call makes have their answers. -/
def Answered (endPos : π) (ask : (d : Call π) → Attempt π d.Result) (c : Call π) : Prop :=
  ∀ found d, c.Makes endPos found d → ask d = some (d.answer endPos)

section

variable {t : Token π} {r ts : List (Token π)}

theorem expr_body (p : Precedence) (hask : (expr p ts).Answered endPos ask) :
    body endPos ask (expr p ts) = some (answer endPos (expr p ts)) := by
  cases ts with
  | nil =>
      rw [answer, Reading.expr]
      rfl
  | cons t r =>
      rw [answer, Reading.expr]
      refine Attempt.andThen_eq (hask _ _ .operand) _ fun left rest _ hleft => ?_
      exact hask _ _ (.climb hleft)

theorem operand_body (hask : (operand t r).Answered endPos ask) :
    body endPos ask (operand t r) = some (answer endPos (operand t r)) := by
  rw [body, answer, Reading.operand]
  cases hk : t.kind with
  | integer =>
      simp only
      cases integer? t.literal with
      | none => rfl
      | some n => rfl
  | bang => exact Attempt.map_eq (hask _ _ (.unary (.inl hk))) _
  | minus => exact Attempt.map_eq (hask _ _ (.unary (.inr hk))) _
  | leftParen =>
      refine Attempt.andThen_eq (hask _ _ (.group hk)) _ fun e rest _ _ => ?_
      exact Attempt.map_eq rfl _
  | kwIf => exact hask _ _ (.conditional hk)
  | kwWhile =>
      refine Attempt.andThen_eq (hask _ _ (.loopCondition hk)) _ fun c r₁ _ hc => ?_
      refine Attempt.andThen_eq rfl _ fun brace r₂ _ h => ?_
      obtain ⟨rfl, hbrace⟩ := expect_yields h
      exact Attempt.map_eq (hask _ _ (.loopBody hk hc hbrace)) _
  | kwFunc =>
      refine Attempt.andThen_eq rfl _ fun paren r₁ _ h => ?_
      obtain ⟨rfl, hparen⟩ := expect_yields h
      refine Attempt.andThen_eq (hask _ _ (.params hk hparen)) _ fun ps r₂ _ hps => ?_
      refine Attempt.andThen_eq rfl _ fun brace r₃ _ h => ?_
      obtain ⟨rfl, hbrace⟩ := expect_yields h
      exact Attempt.map_eq (hask _ _ (.funcBody hk hparen hps hbrace)) _
  | leftBracket => exact Attempt.map_eq (hask _ _ (.elements hk)) _
  | leftBrace => exact Attempt.map_eq (hask _ _ (.members hk)) _
  | _ => rfl

theorem climb_body (p : Precedence) (left : Expr (Token π))
    (hask : (climb p left ts).Answered endPos ask) :
    body endPos ask (climb p left ts) = some (answer endPos (climb p left ts)) := by
  cases ts with
  | nil =>
      rw [answer, Reading.climb]
      rfl
  | cons t r =>
      rw [body, answer, Reading.climb]
      cases hc : Continuation.ofKind? t.kind with
      | none => rfl
      | some c =>
          by_cases hp : p < c.precedence
          · simp only [if_pos hp]
            refine Attempt.andThen_eq (hask _ _ (.extend hc hp)) _ fun left' rest _ hleft => ?_
            exact hask _ _ (.climbOn hc hp hleft)
          · simp only [if_neg hp]
            rfl

theorem extend_body (left : Expr (Token π)) (c : Continuation)
    (hask : (extend left c t r).Answered endPos ask) :
    body endPos ask (extend left c t r) = some (answer endPos (extend left c t r)) := by
  cases c with
  | binary op =>
      rw [answer, Reading.extend]
      exact Attempt.map_eq (hask _ _ .rightOperand) _
  | assign =>
      cases left with
      | ident id =>
          rw [answer, Reading.extend]
          exact Attempt.map_eq (hask _ _ .assigned) _
      | _ =>
          have hright := hask _ _ (.dropped fun id => by simp)
          simp only [body, hright, answer, Reading.extend]
          simp [Attempt.andThenAny, Attempt.behind, Reply.answer]
  | call =>
      rw [answer, Reading.extend]
      exact Attempt.map_eq (hask _ _ .arguments) _
  | index =>
      rw [answer, Reading.extend]
      refine Attempt.andThen_eq (hask _ _ .index) _ fun i rest _ _ => ?_
      exact Attempt.map_eq rfl _

theorem conditional_body (hask : (conditional t r).Answered endPos ask) :
    body endPos ask (conditional t r) = some (answer endPos (conditional t r)) := by
  rw [answer, Reading.conditional]
  refine Attempt.andThen_eq (hask _ _ .condition) _ fun c r₁ _ hc => ?_
  refine Attempt.andThen_eq rfl _ fun brace r₂ _ h => ?_
  obtain ⟨rfl, hbrace⟩ := expect_yields h
  refine Attempt.andThen_eq (hask _ _ (.consequence hc hbrace)) _ fun b r₃ _ hb => ?_
  exact Attempt.map_eq (hask _ _ (.alternative hc hbrace hb)) _

theorem alternative_body (hask : (alternative ts).Answered endPos ask) :
    body endPos ask (alternative ts) = some (answer endPos (alternative ts)) := by
  rcases ts with _ | ⟨t, _ | ⟨u, more⟩⟩
  · rw [answer, Reading.alternative]
    rfl
  · rw [body, answer, Reading.alternative]
    split <;> rfl
  · rw [body, answer, Reading.alternative]
    by_cases ht : t.kind = .kwElse
    · simp only [if_pos ht]
      by_cases hif : u.kind = .kwIf
      · simp only [if_pos hif]
        exact Attempt.map_eq (hask _ _ (.elseIf ht hif)) _
      · simp only [if_neg hif]
        by_cases hbrace : u.kind = .leftBrace
        · simp only [if_pos hbrace]
          exact Attempt.map_eq (hask _ _ (.elseBlock ht hbrace)) _
        · simp only [if_neg hbrace]
          rfl
    · simp only [if_neg ht]
      rfl

theorem block_body (brace : Token π) (hask : (block brace ts).Answered endPos ask) :
    body endPos ask (block brace ts) = some (answer endPos (block brace ts)) := by
  rw [answer, Reading.block]
  exact Attempt.map_eq (hask _ _ .blockStatements) _

theorem blockStatements_body (hask : (blockStatements ts).Answered endPos ask) :
    body endPos ask (blockStatements ts) = some (answer endPos (blockStatements ts)) := by
  cases ts with
  | nil =>
      rw [answer, Reading.blockStatements]
      rfl
  | cons t r =>
      rw [body, answer, Reading.blockStatements]
      by_cases ht : t.kind = .rightBrace
      · simp only [if_pos ht]
        rfl
      · simp only [if_neg ht]
        refine Attempt.andThenAny_eq (hask _ _ (.blockStatement ht)) fun _ => ?_
        exact Attempt.map_eq (hask _ _ (.laterBlockStatements ht rfl)) _

theorem statement_body (hask : (statement t r).Answered endPos ask) :
    body endPos ask (statement t r) = some (answer endPos (statement t r)) := by
  rw [body, answer, Reading.statement]
  cases hk : t.kind with
  | kwVar => exact hask _ _ (.declaration (.inl ⟨hk, rfl⟩))
  | kwVal => exact hask _ _ (.declaration (.inr ⟨hk, rfl⟩))
  | kwReturn => exact Attempt.andThen_eq (hask _ _ (.returned hk)) _ fun _ _ _ _ => rfl
  | _ =>
      have hexpr := hask _ _ (.expression (r := r) (by simp [hk]) (by simp [hk]) (by simp [hk]))
      exact Attempt.andThen_eq hexpr _ fun _ _ _ _ => rfl

theorem declaration_body (kind : BindingKind) (hask : (declaration kind t r).Answered endPos ask) :
    body endPos ask (declaration kind t r) = some (answer endPos (declaration kind t r)) := by
  rw [body, answer, Reading.declaration]
  have hhead : ((reply (declarationHead endPos r)).recover fun r₁ => ask (skipStatement r₁)) =
      some ((declarationHead endPos r).recover Reading.skipStatement _).answer :=
    Attempt.recover_eq rfl length_skipStatement_le fun hnone => hask _ _ (.skipStatement hnone rfl)
  refine Attempt.andThen_eq hhead _ fun name r₁ _ hname => ?_
  exact Attempt.andThen_eq (hask _ _ (.declared hname.of_recover)) _ fun _ _ _ _ => rfl

theorem skipStatement_body (hask : (skipStatement ts).Answered endPos ask) :
    body endPos ask (skipStatement ts) = some (answer endPos (skipStatement ts)) := by
  cases ts with
  | nil => rfl
  | cons t r =>
      rw [body, answer, Reading.skipStatement]
      by_cases hsemicolon : t.kind = .semicolon
      · simp [hsemicolon, skipSemicolon, ok]
      · by_cases hbrace : t.kind = .rightBrace
        · simp [hbrace, skipSemicolon, ok]
        · have hmore := hask _ _ (.skipToken hsemicolon hbrace)
          rw [if_neg hsemicolon, if_neg hbrace, hmore]
          simp [answer, Reading.skipStatement, hsemicolon, hbrace]

theorem params_body (hask : (params ts).Answered endPos ask) :
    body endPos ask (params ts) = some (answer endPos (params ts)) := by
  cases ts with
  | nil => exact hask _ _ (.paramItems (by simp))
  | cons t r =>
      rw [body, answer, Reading.params]
      by_cases ht : t.kind = .rightParen
      · simp only [if_pos ht]
        rfl
      · simp only [if_neg ht]
        exact hask _ _ (.paramItems (by simpa using ht))

theorem paramItems_body (hask : (paramItems ts).Answered endPos ask) :
    body endPos ask (paramItems ts) = some (answer endPos (paramItems ts)) := by
  rcases ts with _ | ⟨t, _ | ⟨c, r⟩⟩
  · rfl
  · rw [body, answer, Reading.paramItems]
    split <;> rfl
  · rw [body, answer, Reading.paramItems]
    by_cases ht : t.kind = .identifier
    · simp only [if_pos ht]
      by_cases hc : c.kind = .comma
      · simp only [if_pos hc]
        exact Attempt.map_eq (hask _ _ (.laterParams ht hc)) _
      · simp only [if_neg hc]
        rfl
    · simp only [if_neg ht]
      rfl

theorem exprList_body (close : Kind) (hask : (exprList close ts).Answered endPos ask) :
    body endPos ask (exprList close ts) = some (answer endPos (exprList close ts)) := by
  cases ts with
  | nil =>
      rw [answer, Reading.exprList]
      exact hask _ _ (.exprItems (by simp))
  | cons t r =>
      rw [body, answer, Reading.exprList]
      by_cases ht : t.kind = close
      · simp only [if_pos ht]
        rfl
      · simp only [if_neg ht]
        exact hask _ _ (.exprItems (by simpa using ht))

theorem exprItems_body (close : Kind) (hask : (exprItems close ts).Answered endPos ask) :
    body endPos ask (exprItems close ts) = some (answer endPos (exprItems close ts)) := by
  rw [answer, Reading.exprItems]
  refine Attempt.andThen_eq (hask _ _ .element) _ fun e rest _ he => ?_
  exact Attempt.map_eq (hask _ _ (.moreExprItems he)) _

theorem moreExprItems_body (close : Kind) (hask : (moreExprItems close ts).Answered endPos ask) :
    body endPos ask (moreExprItems close ts) = some (answer endPos (moreExprItems close ts)) := by
  cases ts with
  | nil =>
      rw [answer, Reading.moreExprItems]
      rfl
  | cons t r =>
      rw [body, answer, Reading.moreExprItems]
      by_cases ht : t.kind = .comma
      · simp only [if_pos ht]
        exact hask _ _ (.laterExprItems ht)
      · simp only [if_neg ht]
        rfl

theorem pairs_body (hask : (pairs ts).Answered endPos ask) :
    body endPos ask (pairs ts) = some (answer endPos (pairs ts)) := by
  cases ts with
  | nil =>
      rw [answer, Reading.pairs]
      exact hask _ _ (.pairItems (by simp))
  | cons t r =>
      rw [body, answer, Reading.pairs]
      by_cases ht : t.kind = .rightBrace
      · simp only [if_pos ht]
        rfl
      · simp only [if_neg ht]
        exact hask _ _ (.pairItems (by simpa using ht))

theorem pairItems_body (hask : (pairItems ts).Answered endPos ask) :
    body endPos ask (pairItems ts) = some (answer endPos (pairItems ts)) := by
  rw [answer, Reading.pairItems]
  refine Attempt.andThen_eq (hask _ _ .key) _ fun k r₁ _ hk => ?_
  refine Attempt.andThen_eq rfl _ fun colon r₂ _ h => ?_
  obtain ⟨rfl, hcolon⟩ := expect_yields h
  refine Attempt.andThen_eq (hask _ _ (.value hk hcolon)) _ fun v r₃ _ hv => ?_
  exact Attempt.map_eq (hask _ _ (.morePairItems hk hcolon hv)) _

theorem morePairItems_body (hask : (morePairItems ts).Answered endPos ask) :
    body endPos ask (morePairItems ts) = some (answer endPos (morePairItems ts)) := by
  cases ts with
  | nil =>
      rw [answer, Reading.morePairItems]
      rfl
  | cons t r =>
      rw [body, answer, Reading.morePairItems]
      by_cases hbrace : t.kind = .rightBrace
      · simp only [if_pos hbrace]
        rfl
      · simp only [if_neg hbrace]
        by_cases hcomma : t.kind = .comma
        · simp only [if_pos hcomma]
          exact hask _ _ (.laterPairItems hcomma)
        · simp only [if_neg hcomma]
          rfl

theorem statements_body (hask : (statements ts).Answered endPos ask) :
    body endPos ask (statements ts) = some (answer endPos (statements ts)) := by
  cases ts with
  | nil =>
      rw [answer, Reading.statements]
      rfl
  | cons t r =>
      have hlater := hask _ _ (.laterStatements rfl)
      rw [body, answer, Reading.statements, hask _ _ .statement]
      simp only [Attempt.andThenAny, Option.bind_some, answer, Reply.answer, hlater]
      rfl

end

theorem body_eq {c : Call π} (hask : c.Answered endPos ask) :
    body endPos ask c = some (c.answer endPos) := by
  cases c with
  | expr p ts => exact expr_body p hask
  | operand t r => exact operand_body hask
  | climb p left ts => exact climb_body p left hask
  | extend left c t r => exact extend_body left c hask
  | conditional t r => exact conditional_body hask
  | alternative ts => exact alternative_body hask
  | block brace ts => exact block_body brace hask
  | blockStatements ts => exact blockStatements_body hask
  | statement t r => exact statement_body hask
  | declaration kind t r => exact declaration_body kind hask
  | skipStatement ts => exact skipStatement_body hask
  | params ts => exact params_body hask
  | paramItems ts => exact paramItems_body hask
  | exprList close ts => exact exprList_body close hask
  | exprItems close ts => exact exprItems_body close hask
  | moreExprItems close ts => exact moreExprItems_body close hask
  | pairs ts => exact pairs_body hask
  | pairItems ts => exact pairItems_body hask
  | morePairItems ts => exact morePairItems_body hask
  | statements ts => exact statements_body hask

end Call

end Reading

end MonkeyLang
