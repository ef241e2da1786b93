import MonkeyLang.Proofs.Reading.Outcomes
import MonkeyLang.Proofs.Tree.Map

/-!
# Reading does not look at places

Tokens at other places are read as the same trees, with the same errors, at
those places.  As the parsers come back to expressions and to blocks with fewer
tokens, this is shown of those two for lists of tokens of growing length, and of
the others as long as it holds of those two.
-/

namespace MonkeyLang

namespace Reading

variable {π ρ : Type} {f : π → ρ} {endPos : π}

theorem unexpected_mirrors {α β : Type} (g : α → β) (want : Kind) (ts : List (Token π)) :
    (unexpected endPos want ts).Mirrors f g
      (unexpected (f endPos) want (ts.map (Token.map f))) := by
  cases ts with
  | nil => exact Reply.mirrors_fail g _ _ _ _ rfl
  | cons t r => exact Reply.mirrors_fail g _ _ _ _ rfl

theorem expect_mirrors (want : Kind) (ts : List (Token π)) :
    (expect endPos want ts).Mirrors f (Token.map f)
      (expect (f endPos) want (ts.map (Token.map f))) := by
  cases ts with
  | nil => exact unexpected_mirrors _ _ _
  | cons t r =>
      rw [List.map_cons, expect, expect, Token.kind_map]
      split
      · exact Reply.mirrors_ok _ _ rfl rfl
      · exact unexpected_mirrors _ _ (t :: r)

theorem skipSemicolon_map (ts : List (Token π)) :
    skipSemicolon (ts.map (Token.map f)) = (skipSemicolon ts).map (Token.map f) := by
  cases ts with
  | nil => rfl
  | cons t r =>
      rw [List.map_cons, skipSemicolon, skipSemicolon, Token.kind_map]
      split <;> rfl

theorem skipStatement_map (ts : List (Token π)) :
    skipStatement (ts.map (Token.map f)) = (skipStatement ts).map (Token.map f) := by
  rw [skipStatement, skipStatement, ← skipSemicolon_map, List.dropWhile_map]
  rfl

theorem declarationHead_mirrors (ts : List (Token π)) :
    (declarationHead endPos ts).Mirrors f (Ident.map (Token.map f))
      (declarationHead (f endPos) (ts.map (Token.map f))) := by
  refine (expect_mirrors _ ts).andThen _ _ fun name r hr hr' => ?_
  exact Reply.Mirrors.weaken ((expect_mirrors _ r).map fun _ => by rfl) _ _

theorem paramItems_mirrors (ts : List (Token π)) :
    (paramItems endPos ts).Mirrors f (List.map (Ident.map (Token.map f)))
      (paramItems (f endPos) (ts.map (Token.map f))) := by
  have last : ∀ (t : Token π) (r : List (Token π)),
      ((expect endPos .rightParen r).map fun _ => [identOf t]).Mirrors f
        (List.map (Ident.map (Token.map f)))
        ((expect (f endPos) .rightParen (r.map (Token.map f))).map
          fun _ => [identOf (t.map f)]) :=
    fun t r => (expect_mirrors _ r).map fun _ => rfl
  fun_induction paramItems endPos ts with
  | case1 => exact unexpected_mirrors _ _ _
  | case2 t ht =>
      rw [List.map_cons, List.map_nil, paramItems, Token.kind_map, if_pos ht]
      exact (last t []).weaken _ _
  | case3 t ht =>
      rw [List.map_cons, List.map_nil, paramItems, Token.kind_map, if_neg ht]
      exact unexpected_mirrors _ _ [t]
  | case4 t c r ht hc ih =>
      rw [List.map_cons, List.map_cons, paramItems, Token.kind_map, Token.kind_map, if_pos ht,
        if_pos hc]
      exact Reply.Mirrors.weaken (ih.map fun _ => by rfl) _ _
  | case5 t c r ht hc =>
      rw [List.map_cons, List.map_cons, paramItems, Token.kind_map, Token.kind_map, if_pos ht,
        if_neg hc]
      exact (last t (c :: r)).weaken _ _
  | case6 t c r ht =>
      rw [List.map_cons, List.map_cons, paramItems, Token.kind_map, if_neg ht]
      exact unexpected_mirrors _ _ (t :: c :: r)

theorem params_mirrors (ts : List (Token π)) :
    (params endPos ts).Mirrors f (List.map (Ident.map (Token.map f)))
      (params (f endPos) (ts.map (Token.map f))) := by
  cases ts with
  | nil => exact paramItems_mirrors []
  | cons t r =>
      rw [List.map_cons, params, params, Token.kind_map]
      split
      · exact Reply.mirrors_ok _ _ rfl rfl
      · exact paramItems_mirrors (t :: r)

/-! ## The parsers of expressions and statements -/

/-- Expressions and blocks of at most `n` tokens are read alike at other
places. -/
structure NaturalUpTo (f : π → ρ) (endPos : π) (n : Nat) : Prop where
  exprs : ∀ (p : Precedence) (ts : List (Token π)), ts.length ≤ n →
    (expr endPos p ts).Mirrors f (Expr.map (Token.map f))
      (expr (f endPos) p (ts.map (Token.map f)))
  blocks : ∀ ts : List (Token π), ts.length ≤ n →
    (blockStatements endPos ts).Mirrors f (List.map (Stmt.map (Token.map f)))
      (blockStatements (f endPos) (ts.map (Token.map f)))

section

variable {n : Nat} (ih : NaturalUpTo f endPos n)
include ih

/-! ### Lists and pairs -/

theorem exprItems_mirrors (close : Kind) {ts : List (Token π)} (h : ts.length ≤ n) :
    (exprItems endPos close ts).Mirrors f (List.map (Expr.map (Token.map f)))
      (exprItems (f endPos) close (ts.map (Token.map f))) := by
  induction ts using length_induction with
  | step ts ihs =>
      have more : ∀ rest : List (Token π), rest.length ≤ ts.length - 1 →
          (moreExprItems endPos close rest).Mirrors f (List.map (Expr.map (Token.map f)))
            (moreExprItems (f endPos) close (rest.map (Token.map f))) := by
        intro rest hrest
        cases rest with
        | nil =>
            rw [List.map_nil, moreExprItems, moreExprItems]
            exact unexpected_mirrors _ _ _
        | cons t r =>
            rw [List.length_cons] at hrest
            rw [List.map_cons, moreExprItems, moreExprItems, Token.kind_map]
            split
            · exact (ihs r (by omega) (by omega)).weaken _ _
            · exact (expect_mirrors _ (t :: r)).map fun _ => rfl
      rw [exprItems, exprItems]
      refine (ih.exprs _ ts h).andThen _ _ fun e rest hr hr' => ?_
      exact Reply.Mirrors.weaken ((more rest hr).map fun _ => by rfl) _ _

theorem exprList_mirrors (close : Kind) {ts : List (Token π)} (h : ts.length ≤ n) :
    (exprList endPos close ts).Mirrors f (List.map (Expr.map (Token.map f)))
      (exprList (f endPos) close (ts.map (Token.map f))) := by
  have items := exprItems_mirrors ih close h
  cases ts with
  | nil =>
      rw [List.map_nil, exprList, exprList]
      exact items
  | cons t r =>
      rw [List.map_cons, exprList, exprList, Token.kind_map]
      split
      · exact Reply.mirrors_ok _ _ rfl rfl
      · exact items

theorem pairItems_mirrors {ts : List (Token π)} (h : ts.length ≤ n) :
    (pairItems endPos ts).Mirrors f
      (List.map fun kv => (kv.1.map (Token.map f), kv.2.map (Token.map f)))
      (pairItems (f endPos) (ts.map (Token.map f))) := by
  induction ts using length_induction with
  | step ts ihs =>
      have more : ∀ rest : List (Token π), rest.length ≤ ts.length - 1 →
          (morePairItems endPos rest).Mirrors f
            (List.map fun kv => (kv.1.map (Token.map f), kv.2.map (Token.map f)))
            (morePairItems (f endPos) (rest.map (Token.map f))) := by
        intro rest hrest
        cases rest with
        | nil =>
            rw [List.map_nil, morePairItems, morePairItems]
            exact unexpected_mirrors _ _ _
        | cons t r =>
            rw [List.length_cons] at hrest
            rw [List.map_cons, morePairItems, morePairItems, Token.kind_map]
            split
            · exact Reply.mirrors_ok _ _ rfl rfl
            · split
              · exact (ihs r (by omega) (by omega)).weaken _ _
              · exact unexpected_mirrors _ _ (t :: r)
      rw [pairItems, pairItems]
      refine (ih.exprs _ ts h).andThen _ _ fun k r₁ hr₁ _ => ?_
      refine (expect_mirrors _ r₁).andThen _ _ fun _ r₂ hr₂ _ => ?_
      refine (ih.exprs _ r₂ (by omega)).andThen _ _ fun v r₃ hr₃ _ => ?_
      exact Reply.Mirrors.weaken ((more r₃ (by omega)).map fun _ => by rfl) _ _

theorem pairs_mirrors {ts : List (Token π)} (h : ts.length ≤ n) :
    (pairs endPos ts).Mirrors f
      (List.map fun kv => (kv.1.map (Token.map f), kv.2.map (Token.map f)))
      (pairs (f endPos) (ts.map (Token.map f))) := by
  have items := pairItems_mirrors ih h
  cases ts with
  | nil =>
      rw [List.map_nil, pairs, pairs]
      exact items
  | cons t r =>
      rw [List.map_cons, pairs, pairs, Token.kind_map]
      split
      · exact Reply.mirrors_ok _ _ rfl rfl
      · exact items

/-! ### Blocks and conditionals -/

theorem block_mirrors (brace : Token π) {ts : List (Token π)} (h : ts.length ≤ n) :
    (block endPos brace ts).Mirrors f (Block.map (Token.map f))
      (block (f endPos) (brace.map f) (ts.map (Token.map f))) := by
  rw [block, block]
  refine (ih.blocks ts h).map fun ss => ?_
  rw [Block.map, Stmt.mapList_eq]

theorem conditional_mirrors (t : Token π) {r : List (Token π)} (h : r.length ≤ n) :
    (conditional endPos t r).Mirrors f (Expr.map (Token.map f))
      (conditional (f endPos) (t.map f) (r.map (Token.map f))) := by
  induction r using length_induction generalizing t with
  | step r ihs =>
      have alternatives : ∀ rest : List (Token π), rest.length ≤ r.length →
          (alternative endPos rest).Mirrors f (Block.mapOption (Token.map f))
            (alternative (f endPos) (rest.map (Token.map f))) := by
        intro rest hrest
        rcases rest with _ | ⟨u, _ | ⟨v, more⟩⟩
        · rw [List.map_nil, alternative, alternative]
          exact Reply.mirrors_ok _ _ rfl rfl
        · rw [List.map_cons, List.map_nil, alternative, alternative, Token.kind_map]
          split
          · exact (unexpected_mirrors _ _ []).weaken _ _
          · exact Reply.mirrors_ok _ _ rfl rfl
        · simp only [List.length_cons] at hrest
          rw [List.map_cons, List.map_cons, alternative, alternative, Token.kind_map,
            Token.kind_map]
          split
          · split
            · refine Reply.Mirrors.weaken ((ihs more (by omega) v (by omega)).map fun _ => ?_) _ _
              rfl
            · split
              · have hmore : more.length ≤ n := by omega
                exact Reply.Mirrors.weaken ((block_mirrors ih v hmore).map fun _ => by rfl) _ _
              · exact (unexpected_mirrors _ _ (v :: more)).weaken _ _
          · exact Reply.mirrors_ok _ _ rfl rfl
      rw [conditional, conditional]
      refine (ih.exprs _ r h).andThen _ _ fun c r₁ hr₁ _ => ?_
      refine (expect_mirrors _ r₁).andThen _ _ fun brace r₂ hr₂ _ => ?_
      refine (block_mirrors ih brace (by omega)).andThen _ _ fun b r₃ hr₃ _ => ?_
      exact Reply.Mirrors.weaken ((alternatives r₃ (by omega)).map fun _ => by rfl) _ _

/-! ### Expressions -/

theorem operand_mirrors (t : Token π) {r : List (Token π)} (h : r.length ≤ n) :
    (operand endPos t r).Mirrors f (Expr.map (Token.map f))
      (operand (f endPos) (t.map f) (r.map (Token.map f))) := by
  rw [operand, operand]
  cases hk : t.kind with
  | identifier | string | kwTrue | kwFalse =>
      simp only [Token.kind_map, hk]
      exact Reply.mirrors_ok _ _ rfl rfl
  | integer =>
      simp only [Token.kind_map, Token.literal_map, hk]
      split
      · exact Reply.mirrors_ok _ _ rfl rfl
      · exact Reply.mirrors_fail _ _ _ _ _ rfl
  | bang | minus =>
      simp only [Token.kind_map, hk]
      exact Reply.Mirrors.weaken ((ih.exprs _ r h).map fun _ => by rfl) _ _
  | leftParen =>
      simp only [Token.kind_map, hk]
      refine (ih.exprs _ r h).andThen _ _ fun e rest _ _ => ?_
      exact Reply.Mirrors.weaken ((expect_mirrors _ rest).map fun _ => by rfl) _ _
  | kwIf =>
      simp only [Token.kind_map, hk]
      exact conditional_mirrors ih t h
  | kwWhile =>
      simp only [Token.kind_map, hk]
      refine (ih.exprs _ r h).andThen _ _ fun c r₁ hr₁ _ => ?_
      refine (expect_mirrors _ r₁).andThen _ _ fun brace r₂ hr₂ _ => ?_
      exact Reply.Mirrors.weaken ((block_mirrors ih brace (by omega)).map fun _ => by rfl) _ _
  | kwFunc =>
      simp only [Token.kind_map, hk]
      refine (expect_mirrors _ r).andThen _ _ fun _ r₁ hr₁ _ => ?_
      refine (params_mirrors r₁).andThen _ _ fun ps r₂ hr₂ _ => ?_
      refine (expect_mirrors _ r₂).andThen _ _ fun brace r₃ hr₃ _ => ?_
      exact Reply.Mirrors.weaken ((block_mirrors ih brace (by omega)).map fun _ => by rfl) _ _
  | leftBracket =>
      simp only [Token.kind_map, hk]
      refine (exprList_mirrors ih _ h).map fun es => ?_
      rw [Expr.map, Expr.mapList_eq]
  | leftBrace =>
      simp only [Token.kind_map, hk]
      refine (pairs_mirrors ih h).map fun ps => ?_
      rw [Expr.map, Expr.mapPairs_eq]
  | _ =>
      simp only [Token.kind_map, hk]
      exact Reply.mirrors_fail _ _ _ _ _ rfl

theorem extend_mirrors (left : Expr (Token π)) (c : Continuation) (t : Token π)
    {r : List (Token π)} (h : r.length ≤ n) :
    (extend endPos left c t r).Mirrors f (Expr.map (Token.map f))
      (extend (f endPos) (left.map (Token.map f)) c (t.map f) (r.map (Token.map f))) := by
  cases c with
  | binary op =>
      rw [extend, extend]
      exact Reply.Mirrors.weaken ((ih.exprs _ r h).map fun _ => by rfl) _ _
  | assign =>
      have hr := ih.exprs .lowest r h
      have hcause : (⟨.notAssignable (left.map (Token.map f)).render, (t.map f).pos⟩ : ParseError ρ) =
          ParseError.map f ⟨.notAssignable left.render, t.pos⟩ := by
        rw [left.render_map]
        rfl
      cases left with
      | ident id =>
          rw [Expr.map, extend, extend]
          exact Reply.Mirrors.weaken (hr.map fun _ => by rfl) _ _
      | _ =>
          rw [extend.eq_def, extend.eq_def]
          exact ⟨rfl, hr.rest, congr (congrArg List.cons hcause) hr.errors⟩
  | call =>
      rw [extend, extend]
      refine (exprList_mirrors ih _ h).map fun es => ?_
      rw [Expr.map, Expr.mapList_eq]
  | index =>
      rw [extend, extend]
      refine (ih.exprs _ r h).andThen _ _ fun i rest _ _ => ?_
      exact Reply.Mirrors.weaken ((expect_mirrors _ rest).map fun _ => by rfl) _ _

theorem climb_mirrors (p : Precedence) (left : Expr (Token π)) {ts : List (Token π)}
    (h : ts.length ≤ n + 1) :
    (climb endPos p left ts).Mirrors f (Expr.map (Token.map f))
      (climb (f endPos) p (left.map (Token.map f)) (ts.map (Token.map f))) := by
  induction ts using length_induction generalizing left with
  | step ts ihs =>
      cases ts with
      | nil =>
          rw [List.map_nil, climb, climb]
          exact Reply.mirrors_ok _ _ rfl rfl
      | cons t r =>
          simp only [List.length_cons] at h ihs
          rw [List.map_cons, climb, climb, Token.kind_map]
          cases Continuation.ofKind? t.kind with
          | none => exact Reply.mirrors_ok _ _ rfl rfl
          | some c =>
              dsimp only
              split
              · refine (extend_mirrors ih left c t (by omega)).andThen _ _ fun left' rest hr _ => ?_
                exact (ihs rest (by omega) left' (by omega)).weaken _ _
              · exact Reply.mirrors_ok _ _ rfl rfl

theorem expr_mirrors (p : Precedence) {ts : List (Token π)} (h : ts.length ≤ n + 1) :
    (expr endPos p ts).Mirrors f (Expr.map (Token.map f))
      (expr (f endPos) p (ts.map (Token.map f))) := by
  cases ts with
  | nil =>
      rw [List.map_nil, expr, expr]
      exact Reply.mirrors_fail _ _ _ _ _ rfl
  | cons t r =>
      rw [List.length_cons] at h
      rw [List.map_cons, expr, expr]
      refine (operand_mirrors ih t (by omega)).andThen _ _ fun left rest hr _ => ?_
      exact (climb_mirrors ih p left (by omega)).weaken _ _

/-! ### Statements -/

theorem declaration_mirrors (kind : BindingKind) (t : Token π) {r : List (Token π)}
    (h : r.length ≤ n) :
    (declaration endPos kind t r).Mirrors f (Stmt.map (Token.map f))
      (declaration (f endPos) kind (t.map f) (r.map (Token.map f))) := by
  have hhead : (declarationHead endPos r).Mirrors f (Ident.map (Token.map f))
      (declarationHead (f endPos) (r.map (Token.map f))) := declarationHead_mirrors r
  rw [declaration, declaration]
  refine (hhead.recover _ _ skipStatement_map).andThen _ _ fun x r₁ hr₁ _ => ?_
  refine (ih.exprs _ r₁ (by omega)).andThen _ _ fun v rest _ _ => ?_
  exact Reply.mirrors_ok _ _ rfl (skipSemicolon_map rest)

theorem statement_mirrors (t : Token π) {r : List (Token π)} (h : r.length ≤ n) :
    (statement endPos t r).Mirrors f (Stmt.map (Token.map f))
      (statement (f endPos) (t.map f) (r.map (Token.map f))) := by
  rw [statement, statement]
  cases hk : t.kind with
  | kwVar =>
      simp only [Token.kind_map, hk]
      exact declaration_mirrors ih .var t h
  | kwVal =>
      simp only [Token.kind_map, hk]
      exact declaration_mirrors ih .val t h
  | kwReturn =>
      simp only [Token.kind_map, hk]
      refine (ih.exprs _ r h).andThen _ _ fun v rest _ _ => ?_
      exact Reply.mirrors_ok _ _ rfl (skipSemicolon_map rest)
  | _ =>
      have hlen : (t :: r).length ≤ n + 1 := Nat.succ_le_succ h
      simp only [Token.kind_map, hk]
      refine (expr_mirrors ih _ hlen).andThen _ _ fun v rest _ _ => ?_
      exact Reply.mirrors_ok _ _ rfl (skipSemicolon_map rest)

theorem blockStatements_mirrors {ts : List (Token π)} (h : ts.length ≤ n + 1) :
    (blockStatements endPos ts).Mirrors f (List.map (Stmt.map (Token.map f)))
      (blockStatements (f endPos) (ts.map (Token.map f))) := by
  cases ts with
  | nil =>
      rw [List.map_nil, blockStatements, blockStatements]
      exact ⟨rfl, rfl, rfl⟩
  | cons t r =>
      rw [List.length_cons] at h
      rw [List.map_cons, blockStatements, blockStatements, Token.kind_map]
      split
      · exact Reply.mirrors_ok _ _ rfl rfl
      · refine (statement_mirrors ih t (by omega)).andThenAny fun s rest hr _ => ?_
        refine Reply.Mirrors.weaken ((ih.blocks rest (by omega)).map fun ss => ?_) _ _
        cases s <;> rfl

end

/-- Expressions and blocks are read alike at other places, however long they
are. -/
theorem naturalUpTo (f : π → ρ) (endPos : π) (n : Nat) : NaturalUpTo f endPos n := by
  induction n with
  | zero =>
      constructor
      · intro p ts hts
        obtain rfl := List.length_eq_zero_iff.mp (Nat.le_zero.mp hts)
        rw [List.map_nil, expr, expr]
        exact Reply.mirrors_fail _ _ _ _ _ rfl
      · intro ts hts
        obtain rfl := List.length_eq_zero_iff.mp (Nat.le_zero.mp hts)
        rw [List.map_nil, blockStatements, blockStatements]
        exact ⟨rfl, rfl, rfl⟩
  | succ n ih => exact ⟨fun p _ h => expr_mirrors ih p h, fun _ h => blockStatements_mirrors ih h⟩

/-- Statements are read alike at other places. -/
theorem statements_map (f : π → ρ) (endPos : π) (ts : List (Token π)) :
    statements (f endPos) (ts.map (Token.map f)) =
      ((statements endPos ts).1.map (Stmt.map (Token.map f)),
        (statements endPos ts).2.map (ParseError.map f)) := by
  induction ts using length_induction with
  | step ts ihs =>
      cases ts with
      | nil =>
          rw [List.map_nil, statements, statements]
          rfl
      | cons t r =>
          have hs := statement_mirrors (naturalUpTo f endPos r.length) t (Nat.le_refl _)
          have hle := (statement endPos t r).length_le
          have hrest := ihs (statement endPos t r).rest (by rw [List.length_cons]; omega)
          rw [List.map_cons, statements, statements, hs.result, hs.rest, hs.errors, hrest]
          cases (statement endPos t r).result <;> simp

end Reading

/-- Tokens at other places are parsed as the same program, with the same errors,
at those places. -/
theorem parseTokens_map {π ρ : Type} (f : π → ρ) (endPos : π) (ts : List (Token π)) :
    (parseTokens (f endPos) (ts.map (Token.map f))).program =
        (parseTokens endPos ts).program.map (Token.map f) ∧
      (parseTokens (f endPos) (ts.map (Token.map f))).errors =
        (parseTokens endPos ts).errors.map (ParseError.map f) := by
  have h := Reading.statements_map f endPos ts
  refine ⟨?_, congrArg Prod.snd h⟩
  rw [Program.map, Stmt.mapList_eq]
  exact congrArg (fun read => Program.mk read.1) h

/-- Tokens that are the same but for places are parsed as programs that are, with errors that
are. -/
theorem parseTokens_of_bare {π ρ : Type} (endPos : π) (endPos' : ρ) {ts : List (Token π)}
    {us : List (Token ρ)} (h : us.map (Token.map fun _ => ()) = ts.map (Token.map fun _ => ())) :
    (parseTokens endPos' us).program.map (Token.map fun _ => ()) =
        (parseTokens endPos ts).program.map (Token.map fun _ => ()) ∧
      (parseTokens endPos' us).errors.map (ParseError.map fun _ => ()) =
        (parseTokens endPos ts).errors.map (ParseError.map fun _ => ()) := by
  obtain ⟨hprogram, herrors⟩ := parseTokens_map (fun _ => ()) endPos ts
  obtain ⟨hprogram', herrors'⟩ := parseTokens_map (fun _ => ()) endPos' us
  rw [h] at hprogram' herrors'
  exact ⟨hprogram'.symm.trans hprogram, herrors'.symm.trans herrors⟩

end MonkeyLang
