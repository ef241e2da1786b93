import MonkeyLang.Proofs.Grammar.First
import MonkeyLang.Proofs.Reading.Built
import MonkeyLang.Proofs.Reading.Trail
import MonkeyLang.Proofs.Token.Order
import MonkeyLang.Proofs.Tree.Layout

/-!
# Trees map back to their texts

Whatever the parsers build, with errors or without, holds tokens of the text that fit its nodes,
and holds them in the order of the text.  Tokens that a parser passes over are in no node, and of
what fails nothing is kept; so the tokens of a tree are those of the text but for some that are
left out.

Where the infix loop makes what it has built the left part of something larger, the tokens of the
left part are known, whatever they are, to stand before all that is read afterwards.  The token of
an expression statement is taken before the expression is read, which is why an expression is
followed together with the statement that it would be.
-/

namespace MonkeyLang

namespace Reading

variable {π α β : Type}

/-- What an answer has built goes with some of the tokens `ts` as `P` says, and all of these stand
before the tokens that are left. -/
def Stores (ts : List (Token π)) (P : α → List (Token π) → Prop) (x : Answer π α) : Prop :=
  ∀ a, x.result = some a → ∃ us, P a us ∧ (us ++ x.rest).Sublist ts

variable {endPos : π} {n m : Nat} {ts us rest : List (Token π)} {t : Token π}
  {P : α → List (Token π) → Prop} {Q : β → List (Token π) → Prop}

/-! ## Ways of putting parsers together -/

theorem stores_ok {a : α} (h : rest.length ≤ n) (ha : P a us)
    (hts : (us ++ rest).Sublist ts) : Stores ts P (Reply.ok a rest h).answer := by
  intro b hb
  obtain rfl := Option.some.inj hb
  exact ⟨us, ha, hts⟩

theorem stores_none {x : Answer π α} (hx : x.result = none) : Stores ts P x := by
  intro a ha
  rw [hx] at ha
  cases ha

theorem Stores.map {x : Reply π α n} (hx : Stores ts P x.answer) {f : α → β}
    (hf : ∀ a us, P a us → Q (f a) us) : Stores ts Q (x.map f).answer := by
  intro b hb
  obtain ⟨a, ha, rfl⟩ := Option.map_eq_some_iff.mp hb
  obtain ⟨us, hP, hus⟩ := hx a ha
  exact ⟨us, hf a us hP, hus⟩

theorem Stores.andThen {x : Reply π α n}
    {f : α → (rest : List (Token π)) → rest.length ≤ n → Reply π β m}
    (hx : Stores ts P x.answer) (h : n ≤ m)
    (hf : ∀ a us rest (hr : rest.length ≤ n), P a us →
      Stores rest (fun b vs => Q b (us ++ vs)) (f a rest hr).answer) :
    Stores ts Q (x.andThen h f).answer := by
  obtain ⟨result, rest, errors, hle⟩ := x
  cases result with
  | none => exact stores_none rfl
  | some a =>
      intro b hb
      obtain ⟨us, hP, hus⟩ := hx a rfl
      obtain ⟨vs, hQ, hvs⟩ := hf a us rest hle hP b hb
      refine ⟨us ++ vs, hQ, ?_⟩
      rw [List.append_assoc]
      exact (hvs.append_left us).trans hus

theorem Stores.recover {x : Reply π α n} (hx : Stores ts P x.answer)
    {skip : List (Token π) → List (Token π)} (h : ∀ ts, (skip ts).length ≤ ts.length) :
    Stores ts P (x.recover skip h).answer := by
  obtain ⟨result, rest, errors, hle⟩ := x
  cases result with
  | none => exact stores_none rfl
  | some a => exact hx

/-- Some of the tokens can be left out. -/
theorem Stores.mono {P Q : α → List (Token π) → Prop} {x : Answer π α} (hx : Stores ts P x)
    (hPQ : ∀ a us, P a us → ∃ vs, Q a vs ∧ vs.Sublist us) : Stores ts Q x := by
  intro a ha
  obtain ⟨us, hP, hus⟩ := hx a ha
  obtain ⟨vs, hQ, hvs⟩ := hPQ a us hP
  exact ⟨vs, hQ, (hvs.append_right x.rest).trans hus⟩

/-- A token in hand is stored before the others. -/
theorem Stores.keep {x : Answer π α} (hx : Stores ts (fun a us => P a (t :: us)) x) :
    Stores (t :: ts) P x := by
  intro a ha
  obtain ⟨us, hP, hus⟩ := hx a ha
  exact ⟨t :: us, hP, hus.cons_cons t⟩

/-- A token in hand is not stored. -/
theorem Stores.pass {x : Answer π α} (hx : Stores ts P x) : Stores (t :: ts) P x := by
  intro a ha
  obtain ⟨us, hP, hus⟩ := hx a ha
  exact ⟨us, hP, hus.cons t⟩

theorem unexpected_stores (endPos : π) (want : Kind) (ts : List (Token π)) :
    Stores ts P (unexpected endPos want ts).answer := by
  cases ts with
  | nil => exact stores_none rfl
  | cons t r => exact stores_none rfl

/-- An expected token can be stored. -/
theorem expect_stores (want : Kind) (ts : List (Token π)) :
    Stores ts (fun t us => t.kind = want ∧ us = [t]) (expect endPos want ts).answer := by
  cases ts with
  | nil => exact unexpected_stores _ want []
  | cons t r =>
      rw [expect]
      split
      · next ht => exact stores_ok _ ⟨ht, rfl⟩ (List.Sublist.refl _)
      · exact unexpected_stores _ want _

/-- An expected token can be passed over. -/
theorem expect_passes (want : Kind) (ts : List (Token π)) :
    Stores ts (fun _ us => us = []) (expect endPos want ts).answer := by
  refine (expect_stores want ts).mono ?_
  intro t us _
  exact ⟨[], rfl, List.nil_sublist us⟩

/-- What ends with an expected token stores no more. -/
theorem expect_closes (want : Kind) (ts : List (Token π)) {b : β} (hb : Q b []) :
    Stores ts Q ((expect endPos want ts).map fun _ => b).answer := by
  refine Stores.map (expect_passes want ts) ?_
  rintro _ _ rfl
  exact hb

/-! ## What is stored by each parser -/

/-- The names that some identifiers stand for. -/
def NamesLaidOut (xs : List (Ident (Token π))) (us : List (Token π)) : Prop :=
  (∀ x ∈ xs, x.Fits) ∧ us = xs.map Ident.tok

/-- How what is built by a call goes with the tokens that are stored in it.  An expression is
taken together with the statement that it would be, the token of which is the first in hand. -/
def Call.Lays : (c : Call π) → c.Result → List (Token π) → Prop
  | expr _ ts, e, us => ∃ t ∈ ts.head?, (Stmt.expr t e).LaidOut us
  | operand t _, e, us => (Stmt.expr t e).LaidOut us
  | climb _ left _, e, us => ∀ ls, left.LaidOut ls → e.LaidOut (ls ++ us)
  | extend left c t _, e, us => Continuation.ofKind? t.kind = some c →
      ∀ ls, left.LaidOut ls → e.LaidOut (ls ++ us)
  | conditional t _, e, us => t.kind = .kwIf →
      ∃ c b alt vs, e = .cond t c b alt ∧ us = t :: vs ∧ e.LaidOut us
  | alternative _, alt, us => Block.AlternativeLaidOut alt us
  | block brace _, b, us => brace.kind = .leftBrace → b.LaidOut (brace :: us)
  | statement _ _, s, us => s.LaidOut us
  | declaration kind t _, s, us => t.kind = kind.kind → s.LaidOut us
  | blockStatements _, ss, us | statements _, ss, us => Stmt.ListLaidOut ss us
  | skipStatement _, _, us => us = []
  | params _, xs, us | paramItems _, xs, us => NamesLaidOut xs us
  | exprList _ _, es, us | exprItems _ _, es, us | moreExprItems _ _, es, us =>
      Expr.ListLaidOut es us
  | pairs _, ps, us | pairItems _, ps, us | morePairItems _, ps, us => Expr.PairsLaidOut ps us

/-- All calls of less than a given height store what they should. -/
def StoresBelow (endPos : π) (h : Nat) : Prop :=
  ∀ d : Call π, d.height < h → Stores d.tokens d.Lays (d.answer endPos)

section

variable {r : List (Token π)} {left e : Expr (Token π)}

/-! ### Expressions -/

theorem StoresBelow.exprs {h : Nat} (ih : StoresBelow endPos h) (p : Precedence)
    (ts : List (Token π)) (hts : (Call.expr p ts).height < h) :
    Stores ts Expr.LaidOut (expr endPos p ts).answer := by
  refine Stores.mono (ih (.expr p ts) hts) ?_
  rintro e us ⟨t, -, he⟩
  exact he.value

theorem expr_stores (p : Precedence) (ih : StoresBelow endPos (Call.expr p ts).height) :
    Stores ts (Call.expr p ts).Lays (expr endPos p ts).answer := by
  cases ts with
  | nil =>
      rw [expr]
      exact stores_none rfl
  | cons t r =>
      rw [expr]
      refine Stores.andThen (ih (.operand t r) (by simp)) _ ?_
      intro left us rest hr hleft
      refine Stores.mono (ih (.climb p left rest) (by grind)) ?_
      intro e vs he
      exact ⟨vs, ⟨t, rfl, hleft.extend he⟩, List.Sublist.refl vs⟩

theorem climb_stores (p : Precedence) (left : Expr (Token π))
    (ih : StoresBelow endPos (Call.climb p left ts).height) :
    Stores ts (Call.climb p left ts).Lays (climb endPos p left ts).answer := by
  have hleft : ∀ ls, left.LaidOut ls → left.LaidOut (ls ++ []) := by
    intro ls hls
    rwa [List.append_nil]
  cases ts with
  | nil =>
      rw [climb]
      exact stores_ok _ hleft (List.Sublist.refl _)
  | cons t r =>
      rw [climb]
      split
      · exact stores_ok _ hleft (List.Sublist.refl _)
      · next c hc =>
        split
        · refine Stores.andThen (ih (.extend left c t r) (by simp)) _ ?_
          intro left' us rest hr hextend
          refine Stores.mono (ih (.climb p left' rest) (by grind)) ?_
          intro e vs he
          refine ⟨vs, ?_, List.Sublist.refl vs⟩
          intro ls hls
          rw [← List.append_assoc]
          exact he _ (hextend hc ls hls)
        · exact stores_ok _ hleft (List.Sublist.refl _)

theorem extend_stores (left : Expr (Token π)) (c : Continuation)
    (ih : StoresBelow endPos (Call.extend left c t r).height) :
    Stores (t :: r) (Call.extend left c t r).Lays (extend endPos left c t r).answer := by
  have exprs (p : Precedence) := ih.exprs p r (by grind)
  cases c with
  | binary op =>
      rw [extend]
      refine Stores.keep (Stores.map (exprs _) ?_)
      intro e us he hc ls hls
      exact .binary (BinaryOp.kind_of_ofKind? hc) hls he
  | assign =>
      cases left with
      | ident id =>
          rw [extend]
          refine Stores.keep (Stores.map (exprs _) ?_)
          intro e us he hc ls hls
          cases hls with
          | ident hid => exact .assign (Continuation.kind_of_ofKind?_assign hc) hid he
      | _ =>
          rw [extend.eq_def]
          exact stores_none rfl
  | call =>
      rw [extend]
      refine Stores.keep (Stores.map (ih (.exprList .rightParen r) (by grind)) ?_)
      intro es us hes hc ls hls
      exact .call (Continuation.kind_of_ofKind?_call hc) hls hes
  | index =>
      rw [extend]
      refine Stores.keep (Stores.andThen (exprs _) _ ?_)
      intro i us rest _ hi
      refine expect_closes _ rest ?_
      intro hc ls hls
      rw [List.append_nil]
      exact .index (Continuation.kind_of_ofKind?_index hc) hls hi

/-! ### Names, lists and pairs -/

theorem paramItems_stores (ts : List (Token π)) :
    Stores ts NamesLaidOut (paramItems endPos ts).answer := by
  have one : ∀ {t : Token π} {r : List (Token π)}, t.kind = .identifier →
      Stores (t :: r) NamesLaidOut
        ((expect endPos .rightParen r).map fun _ => [identOf t]).answer := by
    intro t r ht
    refine Stores.keep (expect_closes _ r ⟨?_, rfl⟩)
    intro x hx
    rw [List.mem_singleton.mp hx]
    exact ⟨ht, rfl⟩
  fun_induction paramItems endPos ts with
  | case1 => exact unexpected_stores _ _ _
  | case2 t ht => exact one ht
  | case3 => exact unexpected_stores _ _ _
  | case4 t c r ht _ ih =>
      refine Stores.keep (Stores.pass (Stores.map ih ?_))
      rintro xs us ⟨hxs, rfl⟩
      exact ⟨List.forall_mem_cons.mpr ⟨⟨ht, rfl⟩, hxs⟩, rfl⟩
  | case5 t c r ht _ => exact one ht
  | case6 => exact unexpected_stores _ _ _

theorem params_stores (ts : List (Token π)) : Stores ts NamesLaidOut (params endPos ts).answer := by
  cases ts with
  | nil => exact paramItems_stores []
  | cons t r =>
      rw [params]
      split
      · exact stores_ok _ ⟨List.forall_mem_nil _, rfl⟩ (List.sublist_cons_self t r)
      · exact paramItems_stores _

theorem exprList_stores (close : Kind)
    (ih : StoresBelow endPos (Call.exprList close ts).height) :
    Stores ts Expr.ListLaidOut (exprList endPos close ts).answer := by
  have items := ih (.exprItems close ts) (by simp)
  cases ts with
  | nil =>
      rw [exprList]
      exact items
  | cons t r =>
      rw [exprList]
      split
      · exact stores_ok _ .nil (List.sublist_cons_self t r)
      · exact items

theorem exprItems_stores (close : Kind)
    (ih : StoresBelow endPos (Call.exprItems close ts).height) :
    Stores ts Expr.ListLaidOut (exprItems endPos close ts).answer := by
  rw [exprItems]
  refine Stores.andThen (ih.exprs _ ts (by simp)) _ ?_
  intro e us rest hr he
  refine Stores.map (ih (.moreExprItems close rest) (by grind)) ?_
  intro es vs hes
  exact .cons he hes

theorem moreExprItems_stores (close : Kind)
    (ih : StoresBelow endPos (Call.moreExprItems close ts).height) :
    Stores ts Expr.ListLaidOut (moreExprItems endPos close ts).answer := by
  cases ts with
  | nil =>
      rw [moreExprItems]
      exact unexpected_stores _ _ _
  | cons t r =>
      rw [moreExprItems]
      split
      · exact Stores.pass (ih (.exprItems close r) (by grind))
      · exact expect_closes _ _ .nil

theorem pairs_stores (ih : StoresBelow endPos (Call.pairs ts).height) :
    Stores ts Expr.PairsLaidOut (pairs endPos ts).answer := by
  have items := ih (.pairItems ts) (by simp)
  cases ts with
  | nil =>
      rw [pairs]
      exact items
  | cons t r =>
      rw [pairs]
      split
      · exact stores_ok _ .nil (List.sublist_cons_self t r)
      · exact items

theorem pairItems_stores (ih : StoresBelow endPos (Call.pairItems ts).height) :
    Stores ts Expr.PairsLaidOut (pairItems endPos ts).answer := by
  rw [pairItems]
  refine Stores.andThen (ih.exprs _ ts (by simp)) _ ?_
  intro k us r₁ hr₁ hk
  refine Stores.andThen (expect_passes _ r₁) _ ?_
  rintro _ _ r₂ hr₂ rfl
  refine Stores.andThen (ih.exprs _ r₂ (by grind)) _ ?_
  intro v vs r₃ hr₃ hv
  refine Stores.map (ih (.morePairItems r₃) (by grind)) ?_
  intro ps ws hps
  rw [List.nil_append]
  exact .cons hk hv hps

theorem morePairItems_stores (ih : StoresBelow endPos (Call.morePairItems ts).height) :
    Stores ts Expr.PairsLaidOut (morePairItems endPos ts).answer := by
  cases ts with
  | nil =>
      rw [morePairItems]
      exact unexpected_stores _ _ _
  | cons t r =>
      rw [morePairItems]
      split
      · exact stores_ok _ .nil (List.sublist_cons_self t r)
      · split
        · exact Stores.pass (ih (.pairItems r) (by grind))
        · exact unexpected_stores _ _ _

/-! ### Blocks and conditionals -/

theorem block_stores (brace : Token π) (ih : StoresBelow endPos (Call.block brace ts).height) :
    Stores ts (Call.block brace ts).Lays (block endPos brace ts).answer := by
  rw [block]
  refine Stores.map (ih (.blockStatements ts) (by simp)) ?_
  intro ss us hss hbrace
  exact .mk hbrace hss

/-- A block behind its brace, which is stored as well. -/
theorem StoresBelow.braced {h : Nat} (ih : StoresBelow endPos h) (brace : Token π)
    (ts : List (Token π)) (hts : (Call.block brace ts).height < h)
    (hbrace : brace.kind = .leftBrace) :
    Stores ts (fun b us => b.LaidOut (brace :: us)) (block endPos brace ts).answer := by
  refine Stores.mono (ih (.block brace ts) hts) ?_
  intro b us hb
  exact ⟨us, hb hbrace, List.Sublist.refl us⟩

theorem conditional_stores (ih : StoresBelow endPos (Call.conditional t r).height) :
    Stores (t :: r) (Call.conditional t r).Lays (conditional endPos t r).answer := by
  rw [conditional]
  refine Stores.keep (Stores.andThen (ih.exprs _ r (by grind)) _ ?_)
  intro c us r₁ hr₁ hc
  refine Stores.andThen (expect_stores _ r₁) _ ?_
  rintro brace _ r₂ hr₂ ⟨hbrace, rfl⟩
  refine Stores.andThen (ih.braced brace r₂ (by grind) hbrace) _ ?_
  intro b vs r₃ hr₃ hb
  refine Stores.map (ih (.alternative r₃) (by grind)) ?_
  intro alt ws halt ht
  have hlaid := Expr.LaidOut.cond ht hc hb halt
  exact ⟨c, b, alt, _, rfl, rfl, hlaid⟩

theorem alternative_stores (ih : StoresBelow endPos (Call.alternative ts).height) :
    Stores ts (Call.alternative ts).Lays (alternative endPos ts).answer := by
  rcases ts with _ | ⟨t, _ | ⟨u, more⟩⟩
  · rw [alternative]
    exact stores_ok _ .none (List.Sublist.refl _)
  · rw [alternative]
    split
    · exact Stores.pass (unexpected_stores endPos .leftBrace [])
    · exact stores_ok _ .none (List.Sublist.refl _)
  · rw [alternative]
    split
    · split
      · next hu =>
        refine Stores.pass (Stores.map (ih (.conditional u more) (by simp)) ?_)
        intro e us he
        obtain ⟨c, b, alt, vs, rfl, rfl, he⟩ := he hu
        exact .elseIf he
      · split
        · next hu =>
          refine Stores.pass (Stores.keep (Stores.map (ih.braced u more (by grind) hu) ?_))
          intro b us hb
          exact .block hb
        · exact Stores.pass (unexpected_stores endPos .leftBrace (u :: more))
    · exact stores_ok _ .none (List.Sublist.refl _)

theorem operand_stores (ih : StoresBelow endPos (Call.operand t r).height) :
    Stores (t :: r) (Call.operand t r).Lays (operand endPos t r).answer := by
  have exprs (p : Precedence) := ih.exprs p r (by grind)
  have one : ∀ e : Expr (Token π), e.LaidOut [t] →
      Stores (t :: r) (Call.operand t r).Lays (Reply.ok e r (Nat.le_refl _)).answer :=
    fun e he => stores_ok _ (.expr he) (List.Sublist.refl _)
  rw [operand]
  split
  · next ht => exact one _ (.ident ⟨ht, rfl⟩)
  · next ht =>
    split
    · next n hn => exact one _ (.int ht (toInt_of_integer? hn))
    · exact stores_none rfl
  · next ht => exact one _ (.str ht)
  · next ht => exact one _ (.bool ht)
  · next ht => exact one _ (.bool ht)
  · next ht =>
    refine Stores.keep (Stores.map (exprs _) ?_)
    intro e us he
    exact .expr (.unary ht he)
  · next ht =>
    refine Stores.keep (Stores.map (exprs _) ?_)
    intro e us he
    exact .expr (.unary ht he)
  · next ht =>
    refine Stores.keep (Stores.andThen (exprs _) _ ?_)
    intro e us rest _ he
    refine expect_closes _ rest ?_
    rw [List.append_nil]
    exact .group ht he
  · next ht =>
    refine Stores.mono (ih (.conditional t r) (by simp)) ?_
    intro e us he
    obtain ⟨c, b, alt, vs, rfl, rfl, he⟩ := he ht
    exact ⟨_, .expr he, List.Sublist.refl _⟩
  · next ht =>
    refine Stores.keep (Stores.andThen (exprs _) _ ?_)
    intro c us r₁ hr₁ hc
    refine Stores.andThen (expect_stores _ r₁) _ ?_
    rintro brace _ r₂ hr₂ ⟨hbrace, rfl⟩
    refine Stores.map (ih.braced brace r₂ (by grind) hbrace) ?_
    intro b vs hb
    exact .expr (.loop ht hc hb)
  · next ht =>
    refine Stores.keep (Stores.andThen (expect_passes _ r) _ ?_)
    rintro _ _ r₁ hr₁ rfl
    refine Stores.andThen (ih (.params r₁) (by grind)) _ ?_
    rintro xs _ r₂ hr₂ ⟨hxs, rfl⟩
    refine Stores.andThen (expect_stores _ r₂) _ ?_
    rintro brace _ r₃ hr₃ ⟨hbrace, rfl⟩
    refine Stores.map (ih.braced brace r₃ (by grind) hbrace) ?_
    intro b vs hb
    exact .expr (.func ht hxs hb)
  · next ht =>
    refine Stores.keep (Stores.map (ih (.exprList .rightBracket r) (by grind)) ?_)
    intro es us hes
    exact .expr (.array ht hes)
  · next ht =>
    refine Stores.keep (Stores.map (ih (.pairs r) (by grind)) ?_)
    intro ps us hps
    exact .expr (.hash ht hps)
  · exact stores_none rfl
  · exact stores_none rfl

/-! ### Statements -/

/-- Behind an expression there may be a semicolon, which is not stored. -/
theorem Stores.ended {x : Reply π α n} (hx : Stores ts P x.answer) (h : n ≤ m) {f : α → β}
    (hle : ∀ rest : List (Token π), rest.length ≤ n → (skipSemicolon rest).length ≤ m)
    (hf : ∀ a us, P a us → Q (f a) us) :
    Stores ts Q (x.andThen h fun v rest hr =>
      .ok (f v) (skipSemicolon rest) (hle rest hr)).answer := by
  refine Stores.andThen hx _ ?_
  intro a us rest hr ha
  have hskip : ([] ++ skipSemicolon rest).Sublist rest := (skipSemicolon_suffix rest).sublist
  refine stores_ok _ ?_ hskip
  rw [List.append_nil]
  exact hf a us ha

theorem declaration_stores (kind : BindingKind)
    (ih : StoresBelow endPos (Call.declaration kind t r).height) :
    Stores (t :: r) (Call.declaration kind t r).Lays (declaration endPos kind t r).answer := by
  have hhead : Stores r (fun x us => Ident.Fits x ∧ us = [x.tok])
      (declarationHead endPos r).answer := by
    refine Stores.andThen (expect_stores _ r) _ ?_
    rintro name _ rest hr ⟨hname, rfl⟩
    exact expect_closes _ rest ⟨⟨hname, rfl⟩, rfl⟩
  rw [declaration]
  refine Stores.keep (Stores.andThen (Stores.recover hhead length_skipStatement_le) _ ?_)
  rintro x _ r₁ hr₁ ⟨hx, rfl⟩
  refine Stores.ended (ih.exprs _ r₁ (by grind)) _ _ ?_
  intro v us hv ht
  exact .declare ht hx hv

theorem statement_stores (ih : StoresBelow endPos (Call.statement t r).height) :
    Stores (t :: r) Stmt.LaidOut (statement endPos t r).answer := by
  have declared : ∀ kind : BindingKind, t.kind = kind.kind →
      Stores (t :: r) Stmt.LaidOut (declaration endPos kind t r).answer := by
    intro kind ht
    refine Stores.mono (ih (.declaration kind t r) (by simp)) ?_
    intro s us hs
    exact ⟨us, hs ht, List.Sublist.refl us⟩
  rw [statement]
  split
  · next ht => exact declared .var ht
  · next ht => exact declared .val ht
  · next ht =>
    refine Stores.keep (Stores.ended (ih.exprs _ r (by grind)) _ _ ?_)
    intro v us hv
    exact .ret ht hv
  · refine Stores.ended (ih (.expr .lowest (t :: r)) (by simp)) _ _ ?_
    rintro v us ⟨u, hu, hv⟩
    obtain rfl : t = u := Option.some.inj hu
    exact hv

/-- A statement that was left out stores nothing; what it has passed over is not stored. -/
theorem Stores.prepend {x : Reply π (Stmt (Token π)) n} {y : Answer π (List (Stmt (Token π)))}
    (hx : Stores ts Stmt.LaidOut x.answer) (hrest : x.rest.Sublist ts)
    (hy : Stores x.rest Stmt.ListLaidOut y) :
    Stores ts Stmt.ListLaidOut
      ⟨y.result.map (x.result.toList ++ ·), y.rest, x.errors ++ y.errors⟩ := by
  intro ss hss
  obtain ⟨ss, hresult, rfl⟩ := Option.map_eq_some_iff.mp hss
  obtain ⟨vs, hlaid, hvs⟩ := hy ss hresult
  cases hs : x.result with
  | none => exact ⟨vs, hlaid, hvs.trans hrest⟩
  | some s =>
      obtain ⟨us, hslaid, hus⟩ := hx s hs
      refine ⟨us ++ vs, .cons hslaid hlaid, ?_⟩
      rw [List.append_assoc]
      exact (hvs.append_left us).trans hus

theorem blockStatements_stores (ih : StoresBelow endPos (Call.blockStatements ts).height) :
    Stores ts Stmt.ListLaidOut (blockStatements endPos ts).answer := by
  cases ts with
  | nil =>
      rw [blockStatements]
      exact stores_ok (Nat.le_refl _) .nil (List.Sublist.refl _)
  | cons t r =>
      rw [blockStatements]
      split
      · exact stores_ok _ .nil (List.sublist_cons_self t r)
      · have hle := (statement endPos t r).length_le
        have hrest := (Call.recorded endPos (.statement t r)).trail.suffix.sublist
        exact Stores.prepend (ih (.statement t r) (by simp)) hrest
          (ih (.blockStatements (statement endPos t r).rest) (by grind))

theorem statements_stores (ih : StoresBelow endPos (Call.statements ts).height) :
    Stores ts Stmt.ListLaidOut (Call.answer endPos (.statements ts)) := by
  cases ts with
  | nil =>
      intro ss hss
      rw [Call.answer, statements] at hss
      obtain rfl := Option.some.inj hss
      exact ⟨[], .nil, List.Sublist.refl _⟩
  | cons t r =>
      have hle := (statement endPos t r).length_le
      have hrest := (Call.recorded endPos (.statement t r)).trail.suffix.sublist
      have hall := Stores.prepend (ih (.statement t r) (by simp)) hrest
        (ih (.statements (statement endPos t r).rest) (by grind))
      rw [Call.answer, statements]
      exact hall

end

/-- Whatever a call builds goes with some of the tokens that it is given. -/
theorem Call.stores (endPos : π) (c : Call π) : Stores c.tokens c.Lays (c.answer endPos) := by
  have below : ∀ h, StoresBelow (π := π) endPos h := by
    intro h
    induction h with
    | zero => exact fun d hd => absurd hd (Nat.not_lt_zero _)
    | succ h ih =>
        intro d hd
        have ih : StoresBelow endPos d.height := fun e he => ih e (by omega)
        cases d with
        | expr p ts => exact expr_stores p ih
        | operand t r => exact operand_stores ih
        | climb p left ts => exact climb_stores p left ih
        | extend left c t r => exact extend_stores left c ih
        | conditional t r => exact conditional_stores ih
        | alternative ts => exact alternative_stores ih
        | block brace ts => exact block_stores brace ih
        | blockStatements ts => exact blockStatements_stores ih
        | statement t r => exact statement_stores ih
        | declaration kind t r => exact declaration_stores kind ih
        | skipStatement ts =>
            intro _ _
            exact ⟨[], rfl, (skipStatement_suffix ts).sublist⟩
        | params ts => exact params_stores ts
        | paramItems ts => exact paramItems_stores ts
        | exprList close ts => exact exprList_stores close ih
        | exprItems close ts => exact exprItems_stores close ih
        | moreExprItems close ts => exact moreExprItems_stores close ih
        | pairs ts => exact pairs_stores ih
        | pairItems ts => exact pairItems_stores ih
        | morePairItems ts => exact morePairItems_stores ih
        | statements ts => exact statements_stores ih
  exact below (c.height + 1) c (Nat.lt_succ_self _)

end Reading

/-- The tree that is built of a text, whether or not there are errors in it, maps back to the text.
Its nodes hold tokens which fit them, laid out as the nodes are, and no others: so much so that
nothing but these tokens can make a difference when the tree is changed by what its nodes hold.
They are some of the tokens of the text, in the same order, each behind the one before it and none
twice. -/
theorem trees_map_back (source : String) :
    ∃ ts : List (Token Position),
      Stmt.ListLaidOut (parseText source).program.statements ts ∧
      (∀ {β : Type} (f g : Token Position → β), AgreeOn f g ts →
        (parseText source).program.map f = (parseText source).program.map g) ∧
      ts.Sublist (tokens source) ∧ ts.Nodup ∧
      (ts.Pairwise fun t u => t.pos.stop ≤ u.pos.start) ∧
      ∀ t ∈ ts, t.pos.start < t.pos.stop ∧ t.Spelled := by
  obtain ⟨ts, hlaid, hts⟩ :=
    Reading.Call.stores (endToken source).pos (.statements (tokens source)) _ rfl
  have hsub : ts.Sublist (tokens source) := (List.sublist_append_left ts _).trans hts
  obtain ⟨happart, hspelled⟩ := tokens_apart_and_spelled source
  have hall : ∀ t ∈ ts, t.pos.start < t.pos.stop ∧ t.Spelled :=
    fun t ht => hspelled t (hsub.subset ht)
  have hpairwise := happart.sublist hsub
  refine ⟨ts, hlaid, ?_, hsub, ?_, hpairwise, hall⟩
  · intro β f g hfg
    exact congrArg Program.mk (hlaid.map_congr hfg)
  · refine hpairwise.imp_of_mem ?_
    rintro t u ht - hle rfl
    exact absurd (hall t ht).1 (Nat.not_lt.mpr hle)

end MonkeyLang
