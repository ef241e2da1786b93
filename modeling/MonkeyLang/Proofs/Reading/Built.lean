import MonkeyLang.Proofs.Reading.Outcomes
import MonkeyLang.Proofs.Token.Apt

/-!
# Whatever is built can be written down

The trees that the parsers build of apt tokens can be written down, whether or
not errors were found, and the tokens that are left are apt again.  It is shown
of expressions and blocks for lists of tokens of growing length, and of the
other parsers as long as it holds of those two.
-/

namespace MonkeyLang

namespace Reading

variable {π : Type} {endPos : π}

/-- Whether all tokens of a list are apt. -/
abbrev AllApt (ts : List (Token π)) : Prop :=
  ∀ t ∈ ts, t.Apt

theorem AllApt.head {t : Token π} {r : List (Token π)} (h : AllApt (t :: r)) : t.Apt :=
  h t List.mem_cons_self

theorem AllApt.tail {t : Token π} {r : List (Token π)} (h : AllApt (t :: r)) : AllApt r :=
  fun u hu => h u (List.mem_cons_of_mem _ hu)

theorem unexpected_builds {α : Type} {P : α → Prop} (want : Kind) {ts : List (Token π)}
    (h : AllApt ts) : (unexpected endPos want ts).Builds Token.Apt P := by
  cases ts <;> exact Reply.builds_fail _ h

theorem expect_builds (want : Kind) {ts : List (Token π)} (h : AllApt ts) :
    (expect endPos want ts).Builds Token.Apt fun t => t.kind = want ∧ t.Apt := by
  cases ts with
  | nil => exact unexpected_builds _ h
  | cons t r =>
      rw [expect]
      split
      · next ht => exact Reply.builds_ok _ ⟨ht, h.head⟩ h.tail
      · exact unexpected_builds _ h

theorem AllApt.skipSemicolon {ts : List (Token π)} (h : AllApt ts) :
    AllApt (Reading.skipSemicolon ts) := by
  cases ts with
  | nil => exact h
  | cons t r =>
      rw [Reading.skipSemicolon]
      split
      · exact h.tail
      · exact h

theorem AllApt.skipStatement {ts : List (Token π)} (h : AllApt ts) :
    AllApt (Reading.skipStatement ts) :=
  AllApt.skipSemicolon fun t ht => h t ((List.dropWhile_suffix _).subset ht)

theorem declarationHead_builds {ts : List (Token π)} (h : AllApt ts) :
    (declarationHead endPos ts).Builds Token.Apt fun x => IsName x.name := by
  refine (expect_builds _ h).andThen _ fun t r _ ht hr => ?_
  refine Reply.Builds.weaken ((expect_builds _ hr).map fun _ _ => ?_) _
  exact ht.2.name ht.1

theorem paramItems_builds {ts : List (Token π)} (h : AllApt ts) :
    (paramItems endPos ts).Builds Token.Apt fun xs => ∀ x ∈ xs, IsName x.name := by
  have last : ∀ {t : Token π} {r : List (Token π)}, t.kind = .identifier → AllApt (t :: r) →
      ((expect endPos .rightParen r).map fun _ => [identOf t]).Builds Token.Apt
        fun xs => ∀ x ∈ xs, IsName x.name := by
    intro t r ht h
    refine (expect_builds _ h.tail).map fun _ _ x hx => ?_
    obtain rfl := List.mem_singleton.mp hx
    exact h.head.name ht
  fun_induction paramItems endPos ts with
  | case1 => exact unexpected_builds _ h
  | case2 t ht => exact (last ht h).weaken _
  | case3 => exact unexpected_builds _ h
  | case4 t c r ht hc ih =>
      refine Reply.Builds.weaken ((ih h.tail.tail).map fun xs hxs x hx => ?_) _
      rcases List.mem_cons.mp hx with rfl | hx
      · exact h.head.name ht
      · exact hxs x hx
  | case5 t c r ht => exact (last ht h).weaken _
  | case6 => exact unexpected_builds _ h

theorem params_builds {ts : List (Token π)} (h : AllApt ts) :
    (params endPos ts).Builds Token.Apt fun xs => ∀ x ∈ xs, IsName x.name := by
  cases ts with
  | nil => exact paramItems_builds h
  | cons t r =>
      rw [params]
      split
      · exact Reply.builds_ok _ (List.forall_mem_nil _) h.tail
      · exact paramItems_builds h

/-- The value of a number is the one that its digits stand for. -/
theorem toInt_of_integer? {literal : String} {n : Int64} (h : integer? literal = some n) :
    n.toInt = Nat.ofDigitChars 10 literal.toList 0 := by
  rw [integer?] at h
  split at h
  · next hlt =>
    obtain rfl := Option.some.inj h
    exact Int64.toInt_ofNat_of_lt hlt
  · cases h

/-- A number that is read has no sign. -/
theorem integer?_nonneg {literal : String} {n : Int64} (h : integer? literal = some n) :
    0 ≤ n := by
  rw [Int64.le_iff_toInt_le, toInt_of_integer? h]
  exact Int.natCast_nonneg _

/-! ## The parsers of expressions and statements -/

/-- What is built of expressions and blocks of at most `n` tokens can be written
down. -/
structure BuildsUpTo (endPos : π) (n : Nat) : Prop where
  exprs : ∀ (p : Precedence) {ts : List (Token π)}, ts.length ≤ n → AllApt ts →
    (expr endPos p ts).Builds Token.Apt Expr.WellFormed
  blocks : ∀ {ts : List (Token π)}, ts.length ≤ n → AllApt ts →
    (blockStatements endPos ts).Builds Token.Apt fun ss => ∀ s ∈ ss, s.WellFormed

section

variable {n : Nat} (ih : BuildsUpTo endPos n)
include ih

/-! ### Lists and pairs -/

theorem exprItems_builds (close : Kind) {ts : List (Token π)} (h : ts.length ≤ n)
    (hts : AllApt ts) :
    (exprItems endPos close ts).Builds Token.Apt fun es => ∀ e ∈ es, e.WellFormed := by
  induction ts using length_induction with
  | step ts ihs =>
      have more : ∀ rest : List (Token π), rest.length ≤ ts.length - 1 → AllApt rest →
          (moreExprItems endPos close rest).Builds Token.Apt
            fun es => ∀ e ∈ es, e.WellFormed := by
        intro rest hrest hapt
        cases rest with
        | nil =>
            rw [moreExprItems]
            exact unexpected_builds _ hapt
        | cons t r =>
            rw [List.length_cons] at hrest
            rw [moreExprItems]
            split
            · exact (ihs r (by omega) (by omega) hapt.tail).weaken _
            · exact (expect_builds _ hapt).map fun _ _ => List.forall_mem_nil _
      rw [exprItems]
      refine (ih.exprs _ h hts).andThen _ fun e rest hrest he hapt => ?_
      refine Reply.Builds.weaken ((more rest hrest hapt).map fun es hes => ?_) _
      exact List.forall_mem_cons.mpr ⟨he, hes⟩

theorem exprList_builds (close : Kind) {ts : List (Token π)} (h : ts.length ≤ n)
    (hts : AllApt ts) :
    (exprList endPos close ts).Builds Token.Apt fun es => ∀ e ∈ es, e.WellFormed := by
  have items := exprItems_builds ih close h hts
  cases ts with
  | nil =>
      rw [exprList]
      exact items
  | cons t r =>
      rw [exprList]
      split
      · exact Reply.builds_ok _ (List.forall_mem_nil _) hts.tail
      · exact items

theorem pairItems_builds {ts : List (Token π)} (h : ts.length ≤ n) (hts : AllApt ts) :
    (pairItems endPos ts).Builds Token.Apt
      fun ps => ∀ p ∈ ps, p.1.WellFormed ∧ p.2.WellFormed := by
  induction ts using length_induction with
  | step ts ihs =>
      have more : ∀ rest : List (Token π), rest.length ≤ ts.length - 1 → AllApt rest →
          (morePairItems endPos rest).Builds Token.Apt
            fun ps => ∀ p ∈ ps, p.1.WellFormed ∧ p.2.WellFormed := by
        intro rest hrest hapt
        cases rest with
        | nil =>
            rw [morePairItems]
            exact unexpected_builds _ hapt
        | cons t r =>
            rw [List.length_cons] at hrest
            rw [morePairItems]
            split
            · exact Reply.builds_ok _ (List.forall_mem_nil _) hapt.tail
            · split
              · exact (ihs r (by omega) (by omega) hapt.tail).weaken _
              · exact unexpected_builds _ hapt
      rw [pairItems]
      refine (ih.exprs _ h hts).andThen _ fun k r₁ hr₁ hk hapt₁ => ?_
      refine (expect_builds _ hapt₁).andThen _ fun _ r₂ hr₂ _ hapt₂ => ?_
      refine (ih.exprs _ (by omega) hapt₂).andThen _ fun v r₃ hr₃ hv hapt₃ => ?_
      refine Reply.Builds.weaken ((more r₃ (by omega) hapt₃).map fun ps hps => ?_) _
      exact List.forall_mem_cons.mpr ⟨⟨hk, hv⟩, hps⟩

theorem pairs_builds {ts : List (Token π)} (h : ts.length ≤ n) (hts : AllApt ts) :
    (pairs endPos ts).Builds Token.Apt
      fun ps => ∀ p ∈ ps, p.1.WellFormed ∧ p.2.WellFormed := by
  have items := pairItems_builds ih h hts
  cases ts with
  | nil =>
      rw [pairs]
      exact items
  | cons t r =>
      rw [pairs]
      split
      · exact Reply.builds_ok _ (List.forall_mem_nil _) hts.tail
      · exact items

/-! ### Blocks and conditionals -/

theorem block_builds (brace : Token π) {ts : List (Token π)} (h : ts.length ≤ n)
    (hts : AllApt ts) : (block endPos brace ts).Builds Token.Apt Block.WellFormed := by
  rw [block]
  exact (ih.blocks h hts).map fun ss hss => (Stmt.wellFormedList_iff ss).mpr hss

theorem conditional_builds (t : Token π) {r : List (Token π)} (h : r.length ≤ n)
    (hr : AllApt r) : (conditional endPos t r).Builds Token.Apt Expr.WellFormed := by
  induction r using length_induction generalizing t with
  | step r ihs =>
      have alternatives : ∀ rest : List (Token π), rest.length ≤ r.length → AllApt rest →
          (alternative endPos rest).Builds Token.Apt Block.WellFormedOption := by
        intro rest hrest hapt
        rcases rest with _ | ⟨u, _ | ⟨v, more⟩⟩
        · rw [alternative]
          exact Reply.builds_ok _ trivial hapt
        · rw [alternative]
          split
          · exact (unexpected_builds _ hapt.tail).weaken _
          · exact Reply.builds_ok _ trivial hapt
        · simp only [List.length_cons] at hrest
          rw [alternative]
          split
          · split
            · have hcond := ihs more (by omega) v (by omega) hapt.tail.tail
              exact Reply.Builds.weaken (hcond.map fun e he => ⟨he, trivial⟩) _
            · split
              · have hlen : more.length ≤ n := by omega
                have hblock := block_builds ih v hlen hapt.tail.tail
                refine Reply.Builds.weaken (hblock.map fun b hb => ?_) _
                exact hb
              · exact (unexpected_builds _ hapt.tail).weaken _
          · exact Reply.builds_ok _ trivial hapt
      rw [conditional]
      refine (ih.exprs _ h hr).andThen _ fun c r₁ hr₁ hc hapt₁ => ?_
      refine (expect_builds _ hapt₁).andThen _ fun brace r₂ hr₂ _ hapt₂ => ?_
      refine (block_builds ih brace (by omega) hapt₂).andThen _ fun b r₃ hr₃ hb hapt₃ => ?_
      have halt := alternatives r₃ (by omega) hapt₃
      exact Reply.Builds.weaken (halt.map fun alt halt => ⟨hc, hb, halt⟩) _

/-! ### Expressions -/

theorem operand_builds (t : Token π) {r : List (Token π)} (h : r.length ≤ n)
    (hts : AllApt (t :: r)) : (operand endPos t r).Builds Token.Apt Expr.WellFormed := by
  have hr := hts.tail
  rw [operand]
  split
  · next ht => exact Reply.builds_ok _ (hts.head.name ht) hr
  · split
    · next hn => exact Reply.builds_ok _ (integer?_nonneg hn) hr
    · exact Reply.builds_fail _ hr
  · next ht => exact Reply.builds_ok _ (hts.head.text ht) hr
  · exact Reply.builds_ok _ trivial hr
  · exact Reply.builds_ok _ trivial hr
  · refine Reply.Builds.weaken ((ih.exprs _ h hr).map fun _ he => ?_) _
    exact he
  · refine Reply.Builds.weaken ((ih.exprs _ h hr).map fun _ he => ?_) _
    exact he
  · refine (ih.exprs _ h hr).andThen _ fun e rest _ he hapt => ?_
    exact Reply.Builds.weaken ((expect_builds _ hapt).map fun _ _ => he) _
  · exact conditional_builds ih t h hr
  · refine (ih.exprs _ h hr).andThen _ fun c r₁ hr₁ hc hapt₁ => ?_
    refine (expect_builds _ hapt₁).andThen _ fun brace r₂ hr₂ _ hapt₂ => ?_
    have hblock := block_builds ih brace (Nat.le_trans hr₂ (by omega)) hapt₂
    exact Reply.Builds.weaken (hblock.map fun b hb => ⟨hc, hb⟩) _
  · refine (expect_builds _ hr).andThen _ fun _ r₁ hr₁ _ hapt₁ => ?_
    refine (params_builds hapt₁).andThen _ fun ps r₂ hr₂ hps hapt₂ => ?_
    refine (expect_builds _ hapt₂).andThen _ fun brace r₃ hr₃ _ hapt₃ => ?_
    have hblock := block_builds ih brace (Nat.le_trans hr₃ (by omega)) hapt₃
    exact Reply.Builds.weaken (hblock.map fun b hb => ⟨hps, hb⟩) _
  · exact (exprList_builds ih _ h hr).map fun es hes => (Expr.wellFormedList_iff es).mpr hes
  · exact (pairs_builds ih h hr).map fun ps hps => (Expr.wellFormedPairs_iff ps).mpr hps
  · exact Reply.builds_fail _ hr
  · exact Reply.builds_fail _ hr

theorem extend_builds {left : Expr (Token π)} (hleft : left.WellFormed) (c : Continuation)
    (t : Token π) {r : List (Token π)} (h : r.length ≤ n) (hr : AllApt r) :
    (extend endPos left c t r).Builds Token.Apt Expr.WellFormed := by
  cases c with
  | binary op =>
      rw [extend]
      exact Reply.Builds.weaken ((ih.exprs _ h hr).map fun _ he => ⟨hleft, he⟩) _
  | assign =>
      have hright := ih.exprs .lowest h hr
      cases left with
      | ident id =>
          rw [extend]
          exact Reply.Builds.weaken (hright.map fun _ he => ⟨hleft, he⟩) _
      | _ =>
          rw [extend.eq_def]
          exact ⟨fun _ h => (Option.some_ne_none _ h.symm).elim, hright.rest⟩
  | call =>
      rw [extend]
      refine (exprList_builds ih _ h hr).map fun es hes => ?_
      exact ⟨hleft, (Expr.wellFormedList_iff es).mpr hes⟩
  | index =>
      rw [extend]
      refine (ih.exprs _ h hr).andThen _ fun i rest _ hi hapt => ?_
      exact Reply.Builds.weaken ((expect_builds _ hapt).map fun _ _ => ⟨hleft, hi⟩) _

theorem climb_builds (p : Precedence) {left : Expr (Token π)} (hleft : left.WellFormed)
    {ts : List (Token π)} (h : ts.length ≤ n + 1) (hts : AllApt ts) :
    (climb endPos p left ts).Builds Token.Apt Expr.WellFormed := by
  induction ts using length_induction generalizing left with
  | step ts ihs =>
      cases ts with
      | nil =>
          rw [climb]
          exact Reply.builds_ok _ hleft hts
      | cons t r =>
          simp only [List.length_cons] at h ihs
          rw [climb]
          split
          · exact Reply.builds_ok _ hleft hts
          · next c _ =>
            split
            · have hext := extend_builds ih hleft c t (by omega) hts.tail
              refine hext.andThen _ fun left' rest hr hleft' hapt => ?_
              exact (ihs rest (by omega) hleft' (by omega) hapt).weaken _
            · exact Reply.builds_ok _ hleft hts

theorem expr_builds (p : Precedence) {ts : List (Token π)} (h : ts.length ≤ n + 1)
    (hts : AllApt ts) : (expr endPos p ts).Builds Token.Apt Expr.WellFormed := by
  cases ts with
  | nil =>
      rw [expr]
      exact Reply.builds_fail _ hts
  | cons t r =>
      rw [List.length_cons] at h
      rw [expr]
      refine (operand_builds ih t (by omega) hts).andThen _ fun left rest hr hleft hapt => ?_
      exact (climb_builds ih p hleft (by omega) hapt).weaken _

/-! ### Statements -/

theorem declaration_builds (kind : BindingKind) (t : Token π) {r : List (Token π)}
    (h : r.length ≤ n) (hr : AllApt r) :
    (declaration endPos kind t r).Builds Token.Apt Stmt.WellFormed := by
  have hhead : (declarationHead endPos r).Builds Token.Apt fun x => IsName x.name :=
    declarationHead_builds hr
  rw [declaration]
  refine (hhead.recover _ fun _ => AllApt.skipStatement).andThen _ fun x r₁ hr₁ hx hapt₁ => ?_
  refine (ih.exprs _ (by omega) hapt₁).andThen _ fun v rest _ hv hapt => ?_
  exact Reply.builds_ok _ ⟨hx, hv⟩ (AllApt.skipSemicolon hapt)

theorem statement_builds (t : Token π) {r : List (Token π)} (h : r.length ≤ n)
    (hts : AllApt (t :: r)) : (statement endPos t r).Builds Token.Apt Stmt.WellFormed := by
  have hlen : (t :: r).length ≤ n + 1 := Nat.succ_le_succ h
  rw [statement]
  split
  · exact declaration_builds ih .var t h hts.tail
  · exact declaration_builds ih .val t h hts.tail
  · refine (ih.exprs _ h hts.tail).andThen _ fun v rest _ hv hapt => ?_
    exact Reply.builds_ok _ hv (AllApt.skipSemicolon hapt)
  · refine (expr_builds ih _ hlen hts).andThen _ fun v rest _ hv hapt => ?_
    exact Reply.builds_ok _ hv (AllApt.skipSemicolon hapt)

theorem blockStatements_builds {ts : List (Token π)} (h : ts.length ≤ n + 1)
    (hts : AllApt ts) :
    (blockStatements endPos ts).Builds Token.Apt fun ss => ∀ s ∈ ss, s.WellFormed := by
  cases ts with
  | nil =>
      rw [blockStatements]
      exact ⟨fun _ hss => Option.some.inj hss ▸ List.forall_mem_nil _, List.forall_mem_nil _⟩
  | cons t r =>
      rw [List.length_cons] at h
      rw [blockStatements]
      split
      · exact Reply.builds_ok _ (List.forall_mem_nil _) hts.tail
      · have hfirst := statement_builds ih t (by omega) hts
        refine hfirst.andThenAny fun s rest hr hs hapt => ?_
        refine Reply.Builds.weaken ((ih.blocks (by omega) hapt).map fun ss hss => ?_) _
        intro s' hs'
        rcases List.mem_append.mp hs' with hs' | hs'
        · exact hs s' (Option.mem_toList.mp hs')
        · exact hss s' hs'

end

/-- What is built of expressions and blocks can be written down, however long
they are. -/
theorem buildsUpTo (endPos : π) (n : Nat) : BuildsUpTo endPos n := by
  induction n with
  | zero =>
      constructor
      · intro p ts hlen hts
        obtain rfl := List.length_eq_zero_iff.mp (Nat.le_zero.mp hlen)
        rw [expr]
        exact Reply.builds_fail _ hts
      · intro ts hlen hts
        obtain rfl := List.length_eq_zero_iff.mp (Nat.le_zero.mp hlen)
        rw [blockStatements]
        exact ⟨fun _ hss => Option.some.inj hss ▸ List.forall_mem_nil _, List.forall_mem_nil _⟩
  | succ n ih => exact ⟨fun p _ h hts => expr_builds ih p h hts, fun h => blockStatements_builds ih h⟩

theorem statements_wellFormed {ts : List (Token π)} (hts : AllApt ts) :
    Stmt.WellFormedList (statements endPos ts).1 := by
  induction ts using length_induction with
  | step ts ihs =>
      cases ts with
      | nil =>
          rw [statements]
          trivial
      | cons t r =>
          have hs := statement_builds (buildsUpTo endPos r.length) t (Nat.le_refl _) hts
          have hle := (statement endPos t r).length_le
          have hrest := ihs (statement endPos t r).rest (by rw [List.length_cons]; omega) hs.rest
          rw [Stmt.wellFormedList_iff] at hrest ⊢
          rw [statements]
          intro s hmem
          rcases List.mem_append.mp hmem with hmem | hmem
          · exact hs.result s (Option.mem_toList.mp hmem)
          · exact hrest s hmem

end Reading

/-- Whatever program is built of a text can be written down. -/
theorem parseText_wellFormed (source : String) : (parseText source).program.WellFormed :=
  Reading.statements_wellFormed (tokens_apt source)

/-- A program that a text is read as can be written down. -/
theorem parse_wellFormed {source : String} {p : Program (Token Position)}
    (h : parse source = .ok p) : p.WellFormed := by
  have hwf := parseText_wellFormed source
  rw [parse] at h
  split at h
  · rw [← Except.ok.inj h]
    exact hwf
  · cases h

end MonkeyLang
