import MonkeyLang.Proofs.Grammar.Loosen
import MonkeyLang.Proofs.Reading.Outcomes

/-!
# What is read is derived

Whatever a parser reads without errors has a derivation over the tokens that
it took off the front.  Climbing keeps the invariant that the expression read
so far belongs to a symbol that what follows it does not bind tighter than; so
it can be an operand of what follows.

The parsers call each other on fewer tokens, sooner or later by way of
expressions or of blocks.  So it is shown of those two for lists of tokens of
growing length, and of the others as long as it holds of those two.
-/

namespace MonkeyLang

namespace Reading

open Grammar Grammar.ExprSymbol

variable {π : Type} {endPos : π}

/-- What follows does not bind tighter than rank `n`. -/
def BindsAtMost (n : Nat) (rest : List (Token π)) : Prop :=
  ∀ t ∈ rest.head?, t.kind.precedence.rank ≤ n

/-- Tokens are those of a derivation, and the rest. -/
def Covers (s : Symbol π) (ts : List (Token π)) (a : s.Tree) (rest : List (Token π)) : Prop :=
  ∃ used, ts = used ++ rest ∧ Derived s used a

/-- Tokens are those of a derivation, a token of kind `close`, and the rest. -/
def CoversTo (s : Symbol π) (close : Kind) (ts : List (Token π)) (a : s.Tree)
    (rest : List (Token π)) : Prop :=
  ∃ used c, ts = used ++ c :: rest ∧ c.kind = close ∧ Derived s used a

/-- Tokens are those of an expression of a symbol, which the rest does not bind
tighter than. -/
structure CoversExpr (x : ExprSymbol) (ts : List (Token π)) (e : Expr (Token π))
    (rest : List (Token π)) : Prop where
  covers : Covers (.expr x) ts e rest
  binds : BindsAtMost x.rank rest

/-- Tokens are those of an operand, which the rest does not bind tighter than. -/
def CoversOperand (ts : List (Token π)) (e : Expr (Token π)) (rest : List (Token π)) : Prop :=
  ∃ x, ExprSymbol.unary.rank ≤ x.rank ∧ CoversExpr x ts e rest

/-- Tokens are those of an expression whose operators bind tighter than `p`, and
the rest does not. -/
structure CoversAbove (p : Precedence) (ts : List (Token π)) (e : Expr (Token π))
    (rest : List (Token π)) : Prop where
  covers : Covers (.expr (above p)) ts e rest
  binds : BindsAtMost p.rank rest

/-- Tokens are those of a statement, perhaps a semicolon, and the rest, which
does not go on with the statement. -/
def CoversStmt (ts : List (Token π)) (s : Stmt (Token π)) (rest : List (Token π)) : Prop :=
  ∃ rest₀, rest = skipSemicolon rest₀ ∧ Covers .statement ts s rest₀ ∧
    BindsAtMost Precedence.lowest.rank rest₀

/-- Tokens go on with a list behind one of its items, up to a token of kind
`close`. -/
def ContinuesTo (item : Symbol π) (close : Kind) (ts : List (Token π)) (as : List item.Tree)
    (rest : List (Token π)) : Prop :=
  ∃ more c, ts = more ++ c :: rest ∧ c.kind = close ∧
    ∀ used a, Derivation item used a → Derived (.separated item) (used ++ more) (a :: as)

/-! ## Parsers that read no expressions -/

theorem expect_satisfies (want : Kind) (ts : List (Token π)) :
    (expect endPos want ts).Satisfies fun t rest => ts = t :: rest ∧ t.kind = want := by
  cases ts with
  | nil => exact Reply.satisfies_fail _ _ _ _ _
  | cons t r =>
      rw [expect]
      split
      · next ht => exact Reply.satisfies_ok _ ⟨rfl, ht⟩
      · exact Reply.satisfies_fail _ _ _ _ _

theorem unexpected_satisfies {α : Type} (want : Kind) (ts : List (Token π))
    (P : α → List (Token π) → Prop) : (unexpected endPos want ts).Satisfies P := by
  cases ts <;> exact Reply.satisfies_fail _ _ _ _ _

theorem paramItems_sound (ts : List (Token π)) :
    (paramItems endPos ts).Satisfies (CoversTo (.separated .name) .rightParen ts) := by
  have last : ∀ (t : Token π) (r : List (Token π)), t.kind = .identifier →
      ((expect endPos .rightParen r).map fun _ => [identOf t]).Satisfies
        (CoversTo (.separated .name) .rightParen (t :: r)) := by
    intro t r ht
    refine (expect_satisfies _ r).map fun c rest hc => ?_
    obtain ⟨rfl, hc⟩ := hc
    exact ⟨[t], c, rfl, hc, ((Derivation.name ht).one).derived⟩
  fun_induction paramItems endPos ts with
  | case1 => exact unexpected_satisfies _ _ _
  | case2 t ht => exact (last t [] ht).weaken _
  | case3 => exact unexpected_satisfies _ _ _
  | case4 t c r ht hc ih =>
      refine Reply.Satisfies.weaken (ih.map fun as rest hrest => ?_) _
      obtain ⟨used, close, rfl, hclose, ⟨d⟩⟩ := hrest
      exact ⟨t :: c :: used, close, rfl, hclose, ((Derivation.name ht).more hc d).derived⟩
  | case5 t c r ht => exact (last t (c :: r) ht).weaken _
  | case6 => exact unexpected_satisfies _ _ _

theorem params_sound (ts : List (Token π)) :
    (params endPos ts).Satisfies (CoversTo (.listOf .name) .rightParen ts) := by
  have items : (paramItems endPos ts).Satisfies (CoversTo (.listOf .name) .rightParen ts) := by
    refine (paramItems_sound ts).mono fun as rest hrest => ?_
    obtain ⟨used, c, heq, hc, ⟨d⟩⟩ := hrest
    exact ⟨used, c, heq, hc, d.items.derived⟩
  cases ts with
  | nil => exact items
  | cons t r =>
      rw [params]
      split
      · next ht => exact Reply.satisfies_ok _ ⟨[], t, rfl, ht, Derivation.empty.derived⟩
      · exact items

theorem declarationHead_satisfies (ts : List (Token π)) :
    (declarationHead endPos ts).Satisfies fun x rest =>
      ∃ u v, ts = u :: v :: rest ∧ u.kind = .identifier ∧ v.kind = .equal ∧ x = identOf u := by
  refine (expect_satisfies _ ts).andThen _ fun u r _ hu => ?_
  obtain ⟨rfl, hu⟩ := hu
  refine Reply.Satisfies.weaken ((expect_satisfies _ r).map fun v rest hv => ?_) _
  obtain ⟨rfl, hv⟩ := hv
  exact ⟨u, v, rfl, hu, hv, rfl⟩

/-! ## Putting together what is covered -/

theorem bindsAtMost_of_index_le {n : Nat} (h : Precedence.index.rank ≤ n)
    (rest : List (Token π)) : BindsAtMost n rest := by
  intro t _
  refine Nat.le_trans ?_ h
  cases t.kind <;> decide

/-- Nothing binds tighter than a primary expression. -/
theorem CoversOperand.primary {ts rest : List (Token π)} {e : Expr (Token π)}
    (h : Covers (.expr .primary) ts e rest) : CoversOperand ts e rest :=
  ⟨.primary, by decide, h, bindsAtMost_of_index_le (by decide) rest⟩

theorem CoversTo.listOf {item : Symbol π} {k : Kind} {ts rest : List (Token π)}
    {as : List item.Tree} (h : CoversTo (.separated item) k ts as rest) :
    CoversTo (.listOf item) k ts as rest := by
  obtain ⟨used, c, heq, hc, ⟨d⟩⟩ := h
  exact ⟨used, c, heq, hc, d.items.derived⟩

theorem ContinuesTo.close {item : Symbol π} {k : Kind} {ts rest : List (Token π)}
    {c : Token π} (h : ts = c :: rest) (hc : c.kind = k) : ContinuesTo item k ts [] rest := by
  refine ⟨[], c, h, hc, fun used a d => ?_⟩
  rw [List.append_nil]
  exact d.one.derived

theorem ContinuesTo.comma {item : Symbol π} {k : Kind} {r rest : List (Token π)}
    {t : Token π} {as : List item.Tree} (ht : t.kind = .comma)
    (h : CoversTo (.separated item) k r as rest) : ContinuesTo item k (t :: r) as rest := by
  obtain ⟨used, c, rfl, hc, ⟨d⟩⟩ := h
  exact ⟨t :: used, c, rfl, hc, fun _ _ first => (first.more ht d).derived⟩

/-- Behind a statement that has been read come other statements, or none. -/
theorem CoversStmt.cons {ts rest rest' : List (Token π)} {s : Stmt (Token π)}
    {ss : List (Stmt (Token π))} (h : CoversStmt ts s rest) {us : List (Token π)}
    (hrest : rest = us ++ rest') (d : Derivation .statements us ss) :
    Covers .statements ts (s :: ss) rest' := by
  obtain ⟨rest₀, hskip, ⟨used, rfl, ⟨first⟩⟩, hbinds⟩ := h
  have ends : rest₀ = us ++ rest' → Covers .statements (used ++ rest₀) (s :: ss) rest' := by
    rintro rfl
    have hrun : ¬Resumes us := by
      rintro ⟨t, ht, hkind⟩
      have hle : t.kind.precedence.rank ≤ Precedence.lowest.rank :=
        hbinds t (by cases us <;> simp_all)
      rcases hkind with hk | hk | hk <;> rw [hk] at hle <;> exact absurd hle (by decide)
    exact ⟨used ++ us, (List.append_assoc ..).symm, (first.unended d hrun).derived⟩
  cases rest₀ with
  | nil => exact ends (by simpa [skipSemicolon] using hskip.symm.trans hrest)
  | cons t r =>
      by_cases ht : t.kind = .semicolon
      · have hr : r = us ++ rest' := by simpa [skipSemicolon, ht] using hskip.symm.trans hrest
        subst hr
        exact ⟨used ++ t :: us, by simp, (first.ended ht d).derived⟩
      · exact ends (by simpa [skipSemicolon, ht] using hskip.symm.trans hrest)

/-! ## The parsers of expressions and statements -/

/-- Expressions and blocks of at most `n` tokens are read soundly. -/
structure SoundUpTo (endPos : π) (n : Nat) : Prop where
  exprs : ∀ {p : Precedence}, p ≤ .unary → ∀ ts : List (Token π), ts.length ≤ n →
    (expr endPos p ts).Satisfies (CoversAbove p ts)
  blocks : ∀ ts : List (Token π), ts.length ≤ n →
    (blockStatements endPos ts).Satisfies (CoversTo .statements .rightBrace ts)

section

variable {n : Nat} (ih : SoundUpTo endPos n)
include ih

/-! ### Lists and pairs -/

theorem exprItems_sound (close : Kind) {ts : List (Token π)} (h : ts.length ≤ n) :
    (exprItems endPos close ts).Satisfies
      (CoversTo (.separated (.expr .expression)) close ts) := by
  induction ts using length_induction with
  | step ts ihs =>
      have more : ∀ rest : List (Token π), rest.length ≤ ts.length - 1 →
          (moreExprItems endPos close rest).Satisfies
            (ContinuesTo (.expr .expression) close rest) := by
        intro rest hrest
        cases rest with
        | nil =>
            rw [moreExprItems]
            exact unexpected_satisfies _ _ _
        | cons t r =>
            rw [List.length_cons] at hrest
            rw [moreExprItems]
            split
            · next ht =>
              have hitems := ihs r (by omega) (by omega)
              exact Reply.Satisfies.weaken (hitems.mono fun _ _ hes => .comma ht hes) _
            · exact (expect_satisfies _ _).map fun _ _ hc => .close hc.1 hc.2
      rw [exprItems]
      refine (ih.exprs (by decide) ts h).andThen _ fun e rest hrest he => ?_
      obtain ⟨⟨used, heq, ⟨d⟩⟩, -⟩ := he
      refine Reply.Satisfies.weaken ((more rest hrest).map fun es rest' hes => ?_) _
      obtain ⟨others, c, heq', hc, hothers⟩ := hes
      exact ⟨used ++ others, c, by simp [heq, heq'], hc, hothers used e d⟩

theorem exprList_sound (close : Kind) {ts : List (Token π)} (h : ts.length ≤ n) :
    (exprList endPos close ts).Satisfies (CoversTo (.listOf (.expr .expression)) close ts) := by
  have items := (exprItems_sound ih close h).mono fun _ _ hes => hes.listOf
  cases ts with
  | nil =>
      rw [exprList]
      exact items
  | cons t r =>
      rw [exprList]
      split
      · next ht => exact Reply.satisfies_ok _ ⟨[], t, rfl, ht, Derivation.empty.derived⟩
      · exact items

theorem pairItems_sound {ts : List (Token π)} (h : ts.length ≤ n) :
    (pairItems endPos ts).Satisfies (CoversTo (.separated .pair) .rightBrace ts) := by
  induction ts using length_induction with
  | step ts ihs =>
      have more : ∀ rest : List (Token π), rest.length ≤ ts.length - 1 →
          (morePairItems endPos rest).Satisfies (ContinuesTo .pair .rightBrace rest) := by
        intro rest hrest
        cases rest with
        | nil =>
            rw [morePairItems]
            exact unexpected_satisfies _ _ _
        | cons t r =>
            rw [List.length_cons] at hrest
            rw [morePairItems]
            split
            · next ht => exact Reply.satisfies_ok _ (.close rfl ht)
            · split
              · next ht =>
                have hitems := ihs r (by omega) (by omega)
                exact Reply.Satisfies.weaken (hitems.mono fun _ _ hps => .comma ht hps) _
              · exact unexpected_satisfies _ _ _
      rw [pairItems]
      refine (ih.exprs (by decide) ts h).andThen _ fun k r₁ hr₁ hk => ?_
      refine (expect_satisfies _ r₁).andThen _ fun colon r₂ hr₂ hcolon => ?_
      obtain ⟨heq₁, hcolon⟩ := hcolon
      refine (ih.exprs (by decide) r₂ (by omega)).andThen _ fun v r₃ hr₃ hv => ?_
      refine Reply.Satisfies.weaken ((more r₃ (by omega)).map fun ps rest hps => ?_) _
      obtain ⟨⟨used, heq, ⟨dk⟩⟩, -⟩ := hk
      obtain ⟨⟨used', heq', ⟨dv⟩⟩, -⟩ := hv
      obtain ⟨others, c, heq'', hc, hothers⟩ := hps
      refine ⟨(used ++ colon :: used') ++ others, c, ?_, hc, hothers _ _ (dk.pair hcolon dv)⟩
      simp [heq, heq₁, heq', heq'']

theorem pairs_sound {ts : List (Token π)} (h : ts.length ≤ n) :
    (pairs endPos ts).Satisfies (CoversTo (.listOf .pair) .rightBrace ts) := by
  have items := (pairItems_sound ih h).mono fun _ _ hps => hps.listOf
  cases ts with
  | nil =>
      rw [pairs]
      exact items
  | cons t r =>
      rw [pairs]
      split
      · next ht => exact Reply.satisfies_ok _ ⟨[], t, rfl, ht, Derivation.empty.derived⟩
      · exact items

/-! ### Blocks and conditionals -/

theorem block_sound {brace : Token π} (hbrace : brace.kind = .leftBrace)
    {ts : List (Token π)} (h : ts.length ≤ n) :
    (block endPos brace ts).Satisfies (Covers .block (brace :: ts)) := by
  rw [block]
  refine (ih.blocks ts h).map fun ss rest hss => ?_
  obtain ⟨used, c, rfl, hc, ⟨d⟩⟩ := hss
  exact ⟨brace :: (used ++ [c]), by simp, (d.block hbrace hc).derived⟩

theorem conditional_sound {t : Token π} (ht : t.kind = .kwIf) {r : List (Token π)}
    (h : r.length ≤ n) :
    (conditional endPos t r).Satisfies (Covers (.expr .conditional) (t :: r)) := by
  induction r using length_induction generalizing t with
  | step r ihs =>
      have alternatives : ∀ rest : List (Token π), rest.length ≤ r.length →
          (alternative endPos rest).Satisfies (Covers .alternative rest) := by
        intro rest hrest
        rw [alternative.eq_def]
        split
        · exact Reply.satisfies_ok _ ⟨[], rfl, Derivation.noElse.derived⟩
        · next u rest' =>
          rw [List.length_cons] at hrest
          split
          · next hu =>
            split
            · exact (unexpected_satisfies _ _ _).weaken _
            · next v more =>
              rw [List.length_cons] at hrest
              split
              · next hv =>
                have hcond := ihs more (by omega) hv (by omega)
                refine Reply.Satisfies.weaken (hcond.map fun e rest he => ?_) _
                obtain ⟨used, heq, ⟨d⟩⟩ := he
                obtain ⟨v', r', rfl, -⟩ := d.first rfl
                obtain ⟨rfl, heq'⟩ := List.cons.inj heq
                exact ⟨u :: v :: r', by simp [heq'], (d.elseIf hu).derived⟩
              · split
                · next hv =>
                  have hmore : more.length ≤ n := by omega
                  have hblock := block_sound ih hv hmore
                  refine Reply.Satisfies.weaken (hblock.map fun b rest hb => ?_) _
                  obtain ⟨used, heq, ⟨d⟩⟩ := hb
                  exact ⟨u :: used, by simp [heq], (d.elseBlock hu).derived⟩
                · exact (unexpected_satisfies _ _ _).weaken _
          · exact Reply.satisfies_ok _ ⟨[], rfl, Derivation.noElse.derived⟩
      rw [conditional]
      refine (ih.exprs (by decide) r h).andThen _ fun c r₁ hr₁ hc => ?_
      refine (expect_satisfies _ r₁).andThen _ fun brace r₂ hr₂ hbrace => ?_
      obtain ⟨heq₂, hbrace⟩ := hbrace
      refine (block_sound ih hbrace (by omega)).andThen _ fun b r₃ hr₃ hb => ?_
      refine Reply.Satisfies.weaken ((alternatives r₃ (by omega)).map fun alt rest halt => ?_) _
      obtain ⟨⟨used, heq, ⟨dcond⟩⟩, -⟩ := hc
      obtain ⟨used', heq', ⟨dblock⟩⟩ := hb
      obtain ⟨used'', heq'', ⟨dalt⟩⟩ := halt
      refine ⟨t :: (used ++ (used' ++ used'')), ?_, (dcond.conditional ht dblock dalt).derived⟩
      simp [heq, heq₂, heq', heq'']

/-! ### Expressions -/

theorem operand_sound (t : Token π) {r : List (Token π)} (h : r.length ≤ n) :
    (operand endPos t r).Satisfies (CoversOperand (t :: r)) := by
  have unaryCase : ∀ (op : UnaryOp) (e : Expr (Token π)) (rest : List (Token π)),
      t.kind = op.kind → CoversAbove .unary r e rest →
      CoversOperand (t :: r) (.unary t op e) rest := by
    rintro op e rest ht ⟨⟨used, rfl, ⟨d⟩⟩, hbinds⟩
    exact ⟨.unary, Nat.le_refl _, ⟨t :: used, rfl, (d.unaryStep ht).derived⟩, hbinds⟩
  rw [operand]
  split
  · next ht =>
    exact Reply.satisfies_ok _ (.primary ⟨[t], rfl, (Derivation.ident ht).derived⟩)
  · next ht =>
    split
    · next n hn =>
      exact Reply.satisfies_ok _ (.primary ⟨[t], rfl, (Derivation.int ht hn).derived⟩)
    · exact Reply.satisfies_fail _ _ _ _ _
  · next ht => exact Reply.satisfies_ok _ (.primary ⟨[t], rfl, (Derivation.str ht).derived⟩)
  · next ht => exact Reply.satisfies_ok _ (.primary ⟨[t], rfl, (Derivation.yes ht).derived⟩)
  · next ht => exact Reply.satisfies_ok _ (.primary ⟨[t], rfl, (Derivation.no ht).derived⟩)
  · next ht =>
    refine Reply.Satisfies.weaken ((ih.exprs (by decide) r h).map fun e rest he => ?_) _
    exact unaryCase .not e rest ht he
  · next ht =>
    refine Reply.Satisfies.weaken ((ih.exprs (by decide) r h).map fun e rest he => ?_) _
    exact unaryCase .negate e rest ht he
  · next ht =>
    refine (ih.exprs (by decide) r h).andThen _ fun e rest hr he => ?_
    refine Reply.Satisfies.weaken ((expect_satisfies _ rest).map fun c rest' hc => ?_) _
    obtain ⟨rfl, hc⟩ := hc
    obtain ⟨⟨used, rfl, ⟨d⟩⟩, -⟩ := he
    exact .primary ⟨t :: (used ++ [c]), by simp, (Derivation.group ht d hc).derived⟩
  · next ht =>
    refine (conditional_sound ih ht h).mono fun e rest he => ?_
    obtain ⟨used, heq, ⟨d⟩⟩ := he
    exact .primary ⟨used, heq, d.choice.derived⟩
  · next ht =>
    refine (ih.exprs (by decide) r h).andThen _ fun c r₁ hr he => ?_
    refine (expect_satisfies _ r₁).andThen _ fun brace r₂ hr₂ hbrace => ?_
    obtain ⟨heq₁, hbrace⟩ := hbrace
    refine Reply.Satisfies.weaken ((block_sound ih hbrace (by omega)).map fun b rest hb => ?_) _
    obtain ⟨⟨used, heq, ⟨d⟩⟩, -⟩ := he
    obtain ⟨used', heq', ⟨d'⟩⟩ := hb
    exact .primary ⟨t :: (used ++ used'), by simp [heq, heq₁, heq'], (d.loop ht d').derived⟩
  · next ht =>
    refine (expect_satisfies _ r).andThen _ fun o r₁ hr₁ ho => ?_
    refine (params_sound r₁).andThen _ fun ps r₂ hr₂ hps => ?_
    refine (expect_satisfies _ r₂).andThen _ fun brace r₃ hr₃ hbrace => ?_
    obtain ⟨heq₃, hbrace⟩ := hbrace
    refine Reply.Satisfies.weaken ((block_sound ih hbrace (by omega)).map fun b rest hb => ?_) _
    obtain ⟨heq₁, ho⟩ := ho
    obtain ⟨used, c, heq₂, hc, ⟨d⟩⟩ := hps
    obtain ⟨used', heq', ⟨d'⟩⟩ := hb
    refine .primary ⟨t :: o :: (used ++ c :: used'), ?_, (d.func ht ho hc d').derived⟩
    simp [heq₁, heq₂, heq₃, heq']
  · next ht =>
    refine (exprList_sound ih .rightBracket h).map fun es rest hes => ?_
    obtain ⟨used, c, rfl, hc, ⟨d⟩⟩ := hes
    exact .primary ⟨t :: (used ++ [c]), by simp, (d.array ht hc).derived⟩
  · next ht =>
    refine (pairs_sound ih h).map fun ps rest hps => ?_
    obtain ⟨used, c, rfl, hc, ⟨d⟩⟩ := hps
    exact .primary ⟨t :: (used ++ [c]), by simp, (d.hash ht hc).derived⟩
  · exact Reply.satisfies_fail _ _ _ _ _
  · exact Reply.satisfies_fail _ _ _ _ _

theorem extend_sound {x : ExprSymbol} {whole r : List (Token π)} {left : Expr (Token π)}
    {t : Token π} {c : Continuation} (hleft : CoversExpr x whole left (t :: r))
    (hc : Continuation.ofKind? t.kind = some c) (h : r.length ≤ n) :
    (extend endPos left c t r).Satisfies fun e rest =>
      ∃ y, CoversExpr y whole e rest ∧ ∀ p < c.precedence, (above p).rank ≤ y.rank := by
  obtain ⟨⟨used, hwhole, dleft⟩, hbinds⟩ := hleft
  have hrank : c.precedence.rank ≤ x.rank := by
    simpa [Kind.precedence, hc] using hbinds t rfl
  cases c with
  | binary op =>
      rw [extend]
      refine Reply.Satisfies.weaken
        ((ih.exprs op.precedence_le_unary r h).map fun e rest he => ?_) _
      obtain ⟨⟨used', rfl, ⟨dright⟩⟩, hrest⟩ := he
      have dright : Derivation (.expr (operandSymbol op.level)) used' e :=
        above_precedence op ▸ dright
      rw [← op.precedence_level] at hrest
      have hlevel : (ExprSymbol.level op.level).rank ≤ x.rank := by
        rw [ExprSymbol.rank, op.precedence_level]
        exact hrank
      have step : Derivation (.chain op.level left) (t :: (used' ++ [])) (.binary t op left e) :=
        .chainStep (BinaryOp.kind_of_ofKind? hc) rfl dright .chainEnd
      refine ⟨.level op.level, ⟨⟨used ++ t :: (used' ++ []), ?_, ?_⟩, hrest⟩, fun p hp => ?_⟩
      · simp [hwhole]
      · exact (dleft.loosen hlevel).level_append step
      · exact above_rank_le (op.precedence_level ▸ hp)
  | assign =>
      have ht : t.kind = .equal := Continuation.kind_of_ofKind?_assign hc
      cases left with
      | ident id =>
          rw [extend]
          refine Reply.Satisfies.weaken ((ih.exprs (by decide) r h).map fun e rest he => ?_) _
          obtain ⟨⟨used', rfl, ⟨dright⟩⟩, hrest⟩ := he
          obtain ⟨dtarget⟩ := dleft.target
          refine ⟨.expression, ⟨⟨used ++ t :: used', ?_, ?_⟩, hrest⟩, fun p hp => ?_⟩
          · simp [hwhole]
          · exact (dtarget.assign ht dright).derived
          · cases p <;> revert hp <;> decide
      | _ =>
          intro herrors
          simp [extend] at herrors
  | call =>
      have ho : t.kind = .leftParen := Continuation.kind_of_ofKind?_call hc
      rw [extend]
      refine (exprList_sound ih .rightParen h).map fun es rest hes => ?_
      obtain ⟨used', close, rfl, hclose, ⟨dargs⟩⟩ := hes
      have hpost := dleft.postfixed_of_call_le hrank
      have step : Derivation (.suffixes left) (t :: (used' ++ [close])) (.call t left es) :=
        .callStep ho dargs hclose .suffixEnd
      refine ⟨.postfixed, ⟨⟨used ++ t :: (used' ++ [close]), ?_, ?_⟩, ?_⟩, fun p _ => ?_⟩
      · simp [hwhole]
      · exact hpost.postfixed_append step
      · exact bindsAtMost_of_index_le (Nat.le_refl _) rest
      · cases p <;> decide
  | index =>
      have ho : t.kind = .leftBracket := Continuation.kind_of_ofKind?_index hc
      rw [extend]
      refine (ih.exprs (by decide) r h).andThen _ fun i rest hr hi => ?_
      refine Reply.Satisfies.weaken ((expect_satisfies _ rest).map fun close rest' hclose => ?_) _
      obtain ⟨rfl, hclose⟩ := hclose
      obtain ⟨⟨used', rfl, ⟨dindex⟩⟩, -⟩ := hi
      have hpost := dleft.postfixed_of_call_le (Nat.le_trans (by decide) hrank)
      have step : Derivation (.suffixes left) (t :: (used' ++ [close])) (.index t left i) :=
        .indexStep ho dindex hclose .suffixEnd
      refine ⟨.postfixed, ⟨⟨used ++ t :: (used' ++ [close]), ?_, ?_⟩, ?_⟩, fun p _ => ?_⟩
      · simp [hwhole]
      · exact hpost.postfixed_append step
      · exact bindsAtMost_of_index_le (Nat.le_refl _) rest'
      · cases p <;> decide

theorem climb_sound {p : Precedence} {x : ExprSymbol} {whole ts : List (Token π)}
    {left : Expr (Token π)} (hx : (above p).rank ≤ x.rank)
    (hleft : CoversExpr x whole left ts) (h : ts.length ≤ n + 1) :
    (climb endPos p left ts).Satisfies (CoversAbove p whole) := by
  induction ts using length_induction generalizing x left with
  | step ts ihs =>
      have stop : BindsAtMost p.rank ts → CoversAbove p whole left ts := by
        intro hbinds
        obtain ⟨used, heq, d⟩ := hleft.covers
        exact ⟨⟨used, heq, d.loosen hx⟩, hbinds⟩
      cases ts with
      | nil =>
          rw [climb]
          exact Reply.satisfies_ok _ (stop (by simp [BindsAtMost]))
      | cons t r =>
          simp only [List.length_cons] at h ihs
          rw [climb]
          split
          · next hc =>
            refine Reply.satisfies_ok _ (stop ?_)
            intro u hu
            obtain rfl : t = u := by simpa using hu
            simp [Kind.precedence, hc, Precedence.rank]
          · next c hc =>
            split
            · next hlt =>
              refine (extend_sound ih hleft hc (by omega)).andThen _ fun left' rest hr hleft' => ?_
              obtain ⟨y, hleft', hy⟩ := hleft'
              exact (ihs rest (by omega) (hy p hlt) hleft' (by omega)).weaken _
            · next hlt =>
              refine Reply.satisfies_ok _ (stop ?_)
              intro u hu
              obtain rfl : t = u := by simpa using hu
              simpa [Kind.precedence, hc, Precedence.lt_iff] using hlt

theorem expr_sound {p : Precedence} (hp : p ≤ .unary) {ts : List (Token π)}
    (h : ts.length ≤ n + 1) :
    (expr endPos p ts).Satisfies (CoversAbove p ts) := by
  cases ts with
  | nil =>
      rw [expr]
      exact Reply.satisfies_fail _ _ _ _ _
  | cons t r =>
      rw [expr]
      rw [List.length_cons] at h
      refine (operand_sound ih t (by omega)).andThen _ fun left rest hr hleft => ?_
      obtain ⟨x, hx, hleft⟩ := hleft
      have hrank := Nat.le_trans (above_rank_le_unary hp) hx
      exact (climb_sound ih hrank hleft (by omega)).weaken _

/-! ### Statements -/

theorem declaration_sound (kind : BindingKind) {t : Token π} (ht : t.kind = kind.kind)
    {r : List (Token π)} (h : r.length ≤ n) :
    (declaration endPos kind t r).Satisfies (CoversStmt (t :: r)) := by
  rw [declaration]
  refine ((declarationHead_satisfies r).recover _ _).andThen _ fun x r₁ hr₁ hx => ?_
  refine (ih.exprs (by decide) r₁ (by omega)).andThen _ fun e rest hr he => Reply.satisfies_ok _ ?_
  obtain ⟨u, v, heq, hu, hv, rfl⟩ := hx
  obtain ⟨⟨used, heq', ⟨d⟩⟩, hbinds⟩ := he
  refine ⟨rest, rfl, ⟨t :: u :: v :: used, ?_, (d.declare ht hu hv).derived⟩, hbinds⟩
  simp [heq, heq']

theorem statement_sound (t : Token π) {r : List (Token π)} (h : r.length ≤ n) :
    (statement endPos t r).Satisfies (CoversStmt (t :: r)) := by
  rw [statement]
  split
  · next ht => exact declaration_sound ih .var ht h
  · next ht => exact declaration_sound ih .val ht h
  · next ht =>
    refine (ih.exprs (by decide) r h).andThen _ fun v rest hr hv => Reply.satisfies_ok _ ?_
    obtain ⟨⟨used, heq, ⟨d⟩⟩, hbinds⟩ := hv
    exact ⟨rest, rfl, ⟨t :: used, by simp [heq], (d.ret ht).derived⟩, hbinds⟩
  · refine (expr_sound ih (by decide) (by simpa using h)).andThen _ fun v rest hr hv =>
      Reply.satisfies_ok _ ?_
    obtain ⟨⟨used, heq, ⟨d⟩⟩, hbinds⟩ := hv
    obtain ⟨t', r', rfl, -⟩ := d.first rfl
    obtain ⟨rfl, heq'⟩ := List.cons.inj heq
    exact ⟨rest, rfl, ⟨t :: r', heq, d.expr.derived⟩, hbinds⟩

theorem blockStatements_sound {ts : List (Token π)} (h : ts.length ≤ n + 1) :
    (blockStatements endPos ts).Satisfies (CoversTo .statements .rightBrace ts) := by
  cases ts with
  | nil =>
      intro herrors
      simp [blockStatements] at herrors
  | cons t r =>
      rw [List.length_cons] at h
      rw [blockStatements]
      split
      · next ht =>
        exact Reply.satisfies_ok _ ⟨[], t, rfl, ht, Derivation.noStatements.derived⟩
      · refine (statement_sound ih t (by omega)).andThenAny fun s rest hr hs => ?_
        refine Reply.Satisfies.weaken ((ih.blocks rest (by omega)).map fun ss rest' hss => ?_) _
        obtain ⟨us, c, heq, hc, ⟨d⟩⟩ := hss
        obtain ⟨used, heq', hused⟩ := hs.cons heq d
        exact ⟨used, c, heq', hc, hused⟩

end

/-- Expressions and blocks are read soundly, however long they are. -/
theorem soundUpTo (n : Nat) : SoundUpTo endPos n := by
  induction n with
  | zero =>
      constructor
      · intro p hp ts hts
        obtain rfl := List.length_eq_zero_iff.mp (Nat.le_zero.mp hts)
        rw [expr]
        exact Reply.satisfies_fail _ _ _ _ _
      · intro ts hts
        obtain rfl := List.length_eq_zero_iff.mp (Nat.le_zero.mp hts)
        intro herrors
        simp [blockStatements] at herrors
  | succ n ih => exact ⟨fun hp _ h => expr_sound ih hp h, fun _ h => blockStatements_sound ih h⟩

/-- What is read as statements is derived. -/
theorem statements_sound {ts : List (Token π)} {ss : List (Stmt (Token π))}
    (h : statements endPos ts = (ss, [])) : Derived .statements ts ss := by
  induction ts using length_induction generalizing ss with
  | step ts ihs =>
      cases ts with
      | nil =>
          obtain rfl : [] = ss := by simpa [statements] using h
          exact Derivation.noStatements.derived
      | cons t r =>
          rw [statements] at h
          obtain ⟨hss, herrors⟩ := Prod.mk.inj h
          obtain ⟨hfirst, hrest⟩ := List.append_eq_nil_iff.mp herrors
          obtain ⟨s, hs, hcovers⟩ := statement_sound (soundUpTo r.length) t (Nat.le_refl _) hfirst
          have hle := (statement endPos t r).length_le
          obtain ⟨d⟩ := ihs _ (by rw [List.length_cons]; omega) (Prod.ext rfl hrest)
          obtain ⟨used, heq, hused⟩ := hcovers.cons (List.append_nil _).symm d
          rw [List.append_nil] at heq
          rw [hs] at hss
          exact heq ▸ hss ▸ hused

end Reading

end MonkeyLang
