import MonkeyLang.Proofs.Grammar.Split

/-!
# Derivations are unique

A symbol derives a tree over some tokens in one way only, although brackets
leave no trace in the tree.  The induction is on one of two derivations; where
they split their tokens they do so at one place.
-/

namespace MonkeyLang

namespace Grammar

open Reading

variable {π : Type}

/-- The symbols that lists are made of. -/
def Listed (item : Symbol π) : Prop :=
  item = .expr .expression ∨ item = .pair ∨ item = .name

/-- Whether the items of a symbol, if it stands for a list, are among those. -/
def Proper : Symbol π → Prop
  | .separated item | .listOf item => Listed item
  | _ => True

theorem Listed.proper {item : Symbol π} (h : Listed item) : Proper item := by
  obtain rfl | rfl | rfl := h <;> trivial

/-- Tokens do not begin with two kinds of token. -/
theorem kinds_clash {t u : Token π} {ts us : List (Token π)} {k k' : Kind}
    (h : t :: ts = u :: us) (ht : t.kind = k) (hu : u.kind = k') (hne : k ≠ k') : False := by
  obtain ⟨rfl, -⟩ := List.cons.inj h
  exact hne (ht.symm.trans hu)

/-- What begins with an operator is not a postfixed expression. -/
theorem unary_postfixed_clash {ts : List (Token π)} {t : Token π} {op : UnaryOp}
    {e : Expr (Token π)} (ht : t.kind = op.kind)
    (d : Derivation (.expr .postfixed) (t :: ts) e) : False := by
  obtain ⟨u, r, heq, hu⟩ := d.first rfl
  obtain ⟨rfl, -⟩ := List.cons.inj heq
  rw [ht] at hu
  cases op <;> exact absurd hu (by decide)

/-- What does not begin with an if is not a conditional. -/
theorem choice_clash {ts us : List (Token π)} {t : Token π} {e : Expr (Token π)} {k : Kind}
    (d : Derivation (.expr .conditional) us e) (h : t :: ts = us) (ht : t.kind = k)
    (hne : k ≠ .kwIf) : False := by
  subst h
  obtain ⟨u, r, heq, hu⟩ := d.first rfl
  exact kinds_clash heq ht (eq_of_beq hu) hne

/-- A block is not a conditional. -/
theorem block_conditional_clash {ts : List (Token π)} {b : Block (Token π)}
    {e : Expr (Token π)} (d : Derivation .block ts b)
    (d' : Derivation (.expr .conditional) ts e) : False := by
  obtain ⟨t, r, rfl, ht⟩ := d.first rfl
  exact choice_clash d' rfl (eq_of_beq ht) (by decide)

/-- A block ends what is before it. -/
theorem block_append_stops {ts : List (Token π)} {b : Block (Token π)}
    (d : Derivation .block ts b) (us : List (Token π)) : Stops .lowest (ts ++ us) := by
  obtain ⟨t, r, rfl, ht⟩ := d.first rfl
  exact stops_close (by decide) (by decide) (eq_of_beq ht) _

theorem block_stops {ts : List (Token π)} {b : Block (Token π)} (d : Derivation .block ts b) :
    Stops .lowest ts := by
  have h := block_append_stops d []
  rwa [List.append_nil] at h

theorem separated_ne_nil {item : Symbol π} {ts : List (Token π)}
    (d : Derivation (.separated item) ts []) : False := by
  cases d

section

variable (endPos : π)
include endPos

/-- The items of a list end at the same place. -/
theorem split_item {item : Symbol π} (hitem : Listed item) {ts us r r' : List (Token π)}
    {a a' : item.Tree} (d : Derivation item ts a) (d' : Derivation item us a')
    (h : ts ++ r = us ++ r') (hr : Stops .lowest r) (hr' : Stops .lowest r') :
    ts = us ∧ a = a' ∧ r = r' := by
  obtain rfl | rfl | rfl := hitem
  · exact split_expression endPos d d' h hr hr'
  · exact split_pair endPos d d' h hr hr'
  · cases d with
    | name ht =>
        cases d' with
        | name ht' =>
            obtain ⟨rfl, rfl⟩ := List.cons.inj h
            exact ⟨rfl, rfl, rfl⟩

/-- An assignment is not an operation: above the precedence of assignments it is
read up to its equals sign. -/
theorem assign_operation_clash {ts us : List (Token π)} {t : Token π} {x : Ident (Token π)}
    {e : Expr (Token π)} (target : Derivation .target ts x) (ht : t.kind = .equal)
    (d : Derivation (.expr (.level .equality)) (ts ++ t :: us) e) : False := by
  obtain ⟨u, ts, rfl, hread⟩ := target.reads endPos
  have hstops : Stops .assign (t :: us) :=
    stops_cons (by simp [ht]) (by rw [ht]; decide)
  have hstop := expr_gives_of_operand (hread (t :: us)) (climb_gives hstops _)
  have hwhole := d.reads endPos .assign [] (by decide) (stops_nil _) e [] (climb_gives (stops_nil _) e)
  rw [List.append_nil] at hwhole
  have hrest := (hstop.unique hwhole).2
  exact absurd hrest (List.cons_ne_nil t us)

/-- An item is not an item and more of them. -/
theorem one_more_clash {item : Symbol π} (hitem : Listed item) {ts us vs : List (Token π)}
    {a a' : item.Tree} {t : Token π} (d : Derivation item ts a) (d' : Derivation item us a')
    (ht : t.kind = .comma) (h : ts = us ++ t :: vs) : False := by
  have hstops := stops_close (by decide) (by decide) ht vs
  have hsplit := split_item endPos hitem d d' ((List.append_nil ts).trans h) (stops_nil _) hstops
  exact absurd hsplit.2.2.symm (List.cons_ne_nil t vs)

/-- A statement that is ended by a semicolon is not one that is not. -/
theorem ended_unended_clash {ts us vs ws : List (Token π)} {t : Token π}
    {s s' : Stmt (Token π)} {ss : List (Stmt (Token π))} (d : Derivation .statement ts s)
    (ht : t.kind = .semicolon) (d' : Derivation .statement vs s')
    (rest : Derivation .statements ws ss) (hrest : ¬Resumes ws)
    (h : ts ++ t :: us = vs ++ ws) : False := by
  have hstops := stops_close (by decide) (by decide) ht us
  obtain ⟨-, -, rfl⟩ := split_statement endPos d d' h hstops (statements_stop rest hrest)
  have hstart : t.kind.startsStmt = true := rest.statements_begin t rfl
  rw [ht] at hstart
  exact absurd hstart (by decide)

/-- A derivation is the only one of its symbol, tokens and tree. -/
theorem Derivation.unique {s : Symbol π} {ts : List (Token π)} {e : s.Tree}
    (d : Derivation s ts e) (hs : Proper s) :
    ∀ {us : List (Token π)} {e' : s.Tree} (d' : Derivation s us e'),
      ts = us → e = e' → HEq d d' := by
  induction d with
  | assign target ht value ihTarget ihValue =>
      intro us e' d' hts he
      cases d' with
      | assign target' ht' value' =>
          cases he
          obtain ⟨rfl, -, htail⟩ := split_target endPos target target' hts
          obtain ⟨-, rfl⟩ := List.cons.inj htail
          obtain rfl := eq_of_heq (ihTarget trivial target' rfl rfl)
          obtain rfl := eq_of_heq (ihValue trivial value' rfl rfl)
          rfl
      | operation d' => exact (assign_operation_clash endPos target ht (hts ▸ d')).elim
  | operation d ih =>
      intro us e' d' hts he
      cases d' with
      | assign target ht => exact (assign_operation_clash endPos target ht (hts ▸ d)).elim
      | operation d' =>
          subst hts he
          obtain rfl := eq_of_heq (ih trivial d' rfl rfl)
          rfl
  | level first more ihFirst ihMore =>
      intro us e' d' hts he
      cases d' with
      | level first' more' =>
          have hstops := chain_stops more (stops_nil _)
          have hstops' := chain_stops more' (stops_nil _)
          rw [List.append_nil] at hstops hstops'
          obtain ⟨rfl, rfl, rfl⟩ := split_operand endPos first first' hts hstops hstops'
          subst he
          obtain rfl := eq_of_heq (ihFirst trivial first' rfl rfl)
          obtain rfl := eq_of_heq (ihMore trivial more' rfl rfl)
          rfl
  | chainEnd =>
      intro us e' d' hts he
      cases d' with
      | chainEnd => rfl
      | chainStep => exact absurd hts.symm (List.cons_ne_nil _ _)
  | chainStep ht hl operand more ihOperand ihMore =>
      intro us e' d' hts he
      cases d' with
      | chainEnd => exact absurd hts (List.cons_ne_nil _ _)
      | chainStep ht' hl' operand' more' =>
          obtain ⟨rfl, htail⟩ := List.cons.inj hts
          have hop := BinaryOp.kind_injective (ht.symm.trans ht')
          subst hop hl
          have hstops := chain_stops more (stops_nil _)
          have hstops' := chain_stops more' (stops_nil _)
          rw [List.append_nil] at hstops hstops'
          obtain ⟨rfl, rfl, rfl⟩ := split_operand endPos operand operand' htail hstops hstops'
          subst he
          obtain rfl := eq_of_heq (ihOperand trivial operand' rfl rfl)
          obtain rfl := eq_of_heq (ihMore trivial more' rfl rfl)
          rfl
  | unaryStep ht d ih =>
      intro us e' d' hts he
      cases d' with
      | unaryStep ht' d' =>
          cases hts
          cases he
          obtain rfl := eq_of_heq (ih trivial d' rfl rfl)
          rfl
      | unaryEnd d' => exact (unary_postfixed_clash ht (hts ▸ d')).elim
  | unaryEnd d ih =>
      intro us e' d' hts he
      cases d' with
      | unaryStep ht => exact (unary_postfixed_clash ht (hts ▸ d)).elim
      | unaryEnd d' =>
          subst hts he
          obtain rfl := eq_of_heq (ih trivial d' rfl rfl)
          rfl
  | postfixed first more ihFirst ihMore =>
      intro us e' d' hts he
      cases d' with
      | postfixed first' more' =>
          have hstops := suffixes_stop more (stops_nil _)
          have hstops' := suffixes_stop more' (stops_nil _)
          rw [List.append_nil] at hstops hstops'
          obtain ⟨rfl, rfl, rfl⟩ := split_primary endPos first first' hts hstops hstops'
          subst he
          obtain rfl := eq_of_heq (ihFirst trivial first' rfl rfl)
          obtain rfl := eq_of_heq (ihMore trivial more' rfl rfl)
          rfl
  | suffixEnd =>
      intro us e' d' hts he
      cases d' with
      | suffixEnd => rfl
      | callStep | indexStep => exact absurd hts.symm (List.cons_ne_nil _ _)
  | callStep ho args hc more ihArgs ihMore =>
      intro us e' d' hts he
      cases d' with
      | suffixEnd => exact absurd hts (List.cons_ne_nil _ _)
      | callStep ho' args' hc' more' =>
          obtain ⟨rfl, htail⟩ := List.cons.inj hts
          obtain ⟨rfl, rfl, hrest⟩ := split_exprList endPos (.inl rfl) args args' hc hc' htail
          cases hrest
          subst he
          obtain rfl := eq_of_heq (ihArgs (.inl rfl) args' rfl rfl)
          obtain rfl := eq_of_heq (ihMore trivial more' rfl rfl)
          rfl
      | indexStep ho' => exact (kinds_clash hts ho ho' (by decide)).elim
  | indexStep ho index hc more ihIndex ihMore =>
      intro us e' d' hts he
      cases d' with
      | suffixEnd => exact absurd hts (List.cons_ne_nil _ _)
      | callStep ho' => exact (kinds_clash hts ho ho' (by decide)).elim
      | indexStep ho' index' hc' more' =>
          obtain ⟨rfl, htail⟩ := List.cons.inj hts
          have hstops := stops_close (by decide) (by decide) hc
          have hstops' := stops_close (by decide) (by decide) hc'
          obtain ⟨rfl, rfl, hrest⟩ := split_expression endPos index index' htail
            (hstops _) (hstops' _)
          cases hrest
          subst he
          obtain rfl := eq_of_heq (ihIndex trivial index' rfl rfl)
          obtain rfl := eq_of_heq (ihMore trivial more' rfl rfl)
          rfl
  -- Primary expressions, told from each other by their first token.
  | ident ht =>
      intro us e' d' hts he
      cases d' with
      | ident => cases hts; rfl
      | choice d' => exact (choice_clash d' hts ht (by decide)).elim
      | _ => exact (kinds_clash hts ht (by assumption) (by decide)).elim
  | int ht =>
      intro us e' d' hts he
      cases d' with
      | int => cases hts; cases he; rfl
      | choice d' => exact (choice_clash d' hts ht (by decide)).elim
      | _ => exact (kinds_clash hts ht (by assumption) (by decide)).elim
  | str ht =>
      intro us e' d' hts he
      cases d' with
      | str => cases hts; rfl
      | choice d' => exact (choice_clash d' hts ht (by decide)).elim
      | _ => exact (kinds_clash hts ht (by assumption) (by decide)).elim
  | yes ht =>
      intro us e' d' hts he
      cases d' with
      | yes => cases hts; rfl
      | choice d' => exact (choice_clash d' hts ht (by decide)).elim
      | _ => exact (kinds_clash hts ht (by assumption) (by decide)).elim
  | no ht =>
      intro us e' d' hts he
      cases d' with
      | no => cases hts; rfl
      | choice d' => exact (choice_clash d' hts ht (by decide)).elim
      | _ => exact (kinds_clash hts ht (by assumption) (by decide)).elim
  | group ho inner hc ih =>
      intro us e' d' hts he
      cases d' with
      | group ho' inner' hc' =>
          obtain ⟨rfl, htail⟩ := List.cons.inj hts
          obtain ⟨rfl, rfl⟩ := append_cons_inj htail
          subst he
          obtain rfl := eq_of_heq (ih trivial inner' rfl rfl)
          rfl
      | choice d' => exact (choice_clash d' hts ho (by decide)).elim
      | _ => exact (kinds_clash hts ho (by assumption) (by decide)).elim
  | choice d ih =>
      intro us e' d' hts he
      cases d' with
      | choice d' =>
          subst hts he
          obtain rfl := eq_of_heq (ih trivial d' rfl rfl)
          rfl
      | _ => exact (choice_clash d hts.symm (by assumption) (by decide)).elim
  | loop ht condition body ihCond ihBody =>
      intro us e' d' hts he
      cases d' with
      | loop ht' condition' body' =>
          cases he
          obtain ⟨-, htail⟩ := List.cons.inj hts
          obtain ⟨rfl, -, rfl⟩ := split_expression endPos condition condition' htail
            (block_stops body) (block_stops body')
          obtain rfl := eq_of_heq (ihCond trivial condition' rfl rfl)
          obtain rfl := eq_of_heq (ihBody trivial body' rfl rfl)
          rfl
      | choice d' => exact (choice_clash d' hts ht (by decide)).elim
      | _ => exact (kinds_clash hts ht (by assumption) (by decide)).elim
  | func ht ho params hc body ihParams ihBody =>
      intro us e' d' hts he
      cases d' with
      | func ht' ho' params' hc' body' =>
          cases he
          obtain ⟨-, hbehind⟩ := List.cons.inj hts
          obtain ⟨rfl, htail⟩ := List.cons.inj hbehind
          obtain ⟨rfl, -, hrest⟩ := split_params endPos params params' hc hc' htail
          cases hrest
          obtain rfl := eq_of_heq (ihParams (.inr (.inr rfl)) params' rfl rfl)
          obtain rfl := eq_of_heq (ihBody trivial body' rfl rfl)
          rfl
      | choice d' => exact (choice_clash d' hts ht (by decide)).elim
      | _ => exact (kinds_clash hts ht (by assumption) (by decide)).elim
  | array ho elements hc ih =>
      intro us e' d' hts he
      cases d' with
      | array ho' elements' hc' =>
          cases he
          obtain ⟨-, htail⟩ := List.cons.inj hts
          obtain ⟨rfl, rfl⟩ := append_cons_inj htail
          obtain rfl := eq_of_heq (ih (.inl rfl) elements' rfl rfl)
          rfl
      | choice d' => exact (choice_clash d' hts ho (by decide)).elim
      | _ => exact (kinds_clash hts ho (by assumption) (by decide)).elim
  | hash ho pairs hc ih =>
      intro us e' d' hts he
      cases d' with
      | hash ho' pairs' hc' =>
          cases he
          obtain ⟨-, htail⟩ := List.cons.inj hts
          obtain ⟨rfl, rfl⟩ := append_cons_inj htail
          obtain rfl := eq_of_heq (ih (.inr (.inl rfl)) pairs' rfl rfl)
          rfl
      | choice d' => exact (choice_clash d' hts ho (by decide)).elim
      | _ => exact (kinds_clash hts ho (by assumption) (by decide)).elim
  | conditional ht condition consequence alternative ihCond ihCons ihAlt =>
      intro us e' d' hts he
      cases d' with
      | conditional ht' condition' consequence' alternative' =>
          cases he
          obtain ⟨-, htail⟩ := List.cons.inj hts
          obtain ⟨rfl, -, hrest⟩ := split_expression endPos condition condition' htail
            (block_append_stops consequence _) (block_append_stops consequence' _)
          obtain ⟨rfl, -, rfl⟩ := split_block endPos consequence consequence' hrest
          obtain rfl := eq_of_heq (ihCond trivial condition' rfl rfl)
          obtain rfl := eq_of_heq (ihCons trivial consequence' rfl rfl)
          obtain rfl := eq_of_heq (ihAlt trivial alternative' rfl rfl)
          rfl
  | noElse =>
      intro us e' d' hts he
      cases d' with
      | noElse => rfl
      | elseBlock | elseIf => exact absurd he (by simp)
  | elseBlock ht d ih =>
      intro us e' d' hts he
      cases d' with
      | noElse => exact absurd he (by simp)
      | elseBlock ht' d' =>
          cases hts
          cases he
          obtain rfl := eq_of_heq (ih trivial d' rfl rfl)
          rfl
      | elseIf ht' d' =>
          cases hts
          exact (block_conditional_clash d d').elim
  | elseIf ht d ih =>
      intro us e' d' hts he
      cases d' with
      | noElse => exact absurd he (by simp)
      | elseBlock ht' d' =>
          cases hts
          exact (block_conditional_clash d' d).elim
      | elseIf ht' d' =>
          cases hts
          cases he
          obtain rfl := eq_of_heq (ih trivial d' rfl rfl)
          rfl
  | block ho body hc ih =>
      intro us e' d' hts he
      cases d' with
      | block ho' body' hc' =>
          cases he
          obtain ⟨-, htail⟩ := List.cons.inj hts
          obtain ⟨rfl, rfl⟩ := append_cons_inj htail
          obtain rfl := eq_of_heq (ih trivial body' rfl rfl)
          rfl
  | targetName ht =>
      intro us e' d' hts he
      cases d' with
      | targetName => cases hts; rfl
      | targetGroup ho => exact (kinds_clash hts ht ho (by decide)).elim
  | targetGroup ho inner hc ih =>
      intro us e' d' hts he
      cases d' with
      | targetName ht => exact (kinds_clash hts ho ht (by decide)).elim
      | targetGroup ho' inner' hc' =>
          obtain ⟨rfl, htail⟩ := List.cons.inj hts
          obtain ⟨rfl, rfl⟩ := append_cons_inj htail
          subst he
          obtain rfl := eq_of_heq (ih trivial inner' rfl rfl)
          rfl
  | name ht =>
      intro us e' d' hts he
      cases d' with
      | name => cases hts; rfl
  | pair key ht value ihKey ihValue =>
      intro us e' d' hts he
      cases d' with
      | pair key' ht' value' =>
          have hstops := stops_close (by decide) (by decide) ht
          have hstops' := stops_close (by decide) (by decide) ht'
          obtain ⟨rfl, -, hrest⟩ := split_expression endPos key key' hts (hstops _) (hstops' _)
          cases hrest
          cases he
          obtain rfl := eq_of_heq (ihKey trivial key' rfl rfl)
          obtain rfl := eq_of_heq (ihValue trivial value' rfl rfl)
          rfl
  | one d ih =>
      intro us e' d' hts he
      cases d' with
      | one d' =>
          cases he
          subst hts
          obtain rfl := eq_of_heq (ih hs.proper d' rfl rfl)
          rfl
      | more d' ht' more' => exact (one_more_clash endPos hs d d' ht' hts).elim
  | more d ht rest ih ihRest =>
      intro us e' d' hts he
      cases d' with
      | one d' => exact (one_more_clash endPos hs d' d ht hts.symm).elim
      | more d' ht' rest' =>
          have hstops := stops_close (by decide) (by decide) ht
          have hstops' := stops_close (by decide) (by decide) ht'
          obtain ⟨rfl, -, hrest⟩ := split_item endPos hs d d' hts (hstops _) (hstops' _)
          cases hrest
          cases he
          obtain rfl := eq_of_heq (ih hs.proper d' rfl rfl)
          obtain rfl := eq_of_heq (ihRest hs rest' rfl rfl)
          rfl
  | empty =>
      intro us e' d' hts he
      cases d' with
      | empty => rfl
      | items d' =>
          subst he
          exact (separated_ne_nil d').elim
  | items d ih =>
      intro us e' d' hts he
      cases d' with
      | empty =>
          subst he
          exact (separated_ne_nil d).elim
      | items d' =>
          subst hts he
          obtain rfl := eq_of_heq (ih hs d' rfl rfl)
          rfl
  -- Statements.
  | @declare _ _ _ _ kind _ ht hu hv value ih =>
      intro us e' d' hts he
      cases d' with
      | declare ht' hu' hv' value' =>
          cases hts
          cases he
          obtain rfl := eq_of_heq (ih trivial value' rfl rfl)
          rfl
      | ret ht' => exact absurd he (by simp)
      | expr d' => exact absurd he (by simp)
  | ret ht value ih =>
      intro us e' d' hts he
      cases d' with
      | ret ht' value' =>
          cases hts
          cases he
          obtain rfl := eq_of_heq (ih trivial value' rfl rfl)
          rfl
      | declare | expr => exact absurd he (by simp)
  | expr d ih =>
      intro us e' d' hts he
      cases d' with
      | expr d' =>
          cases hts
          cases he
          obtain rfl := eq_of_heq (ih trivial d' rfl rfl)
          rfl
      | declare | ret => exact absurd he (by simp)
  | noStatements =>
      intro us e' d' hts he
      cases d' with
      | noStatements => rfl
      | ended | unended => exact absurd he.symm (List.cons_ne_nil _ _)
  | ended first ht rest ihFirst ihRest =>
      intro us e' d' hts he
      cases d' with
      | noStatements => exact absurd he (List.cons_ne_nil _ _)
      | ended first' ht' rest' =>
          have hstops := stops_close (by decide) (by decide) ht
          have hstops' := stops_close (by decide) (by decide) ht'
          obtain ⟨rfl, -, hrest⟩ := split_statement endPos first first' hts (hstops _) (hstops' _)
          cases hrest
          cases he
          obtain rfl := eq_of_heq (ihFirst trivial first' rfl rfl)
          obtain rfl := eq_of_heq (ihRest trivial rest' rfl rfl)
          rfl
      | unended first' rest' hrest' =>
          exact (ended_unended_clash endPos first ht first' rest' hrest' hts).elim
  | unended first rest hrest ihFirst ihRest =>
      intro us e' d' hts he
      cases d' with
      | noStatements => exact absurd he (List.cons_ne_nil _ _)
      | ended first' ht' rest' =>
          exact (ended_unended_clash endPos first' ht' first rest hrest hts.symm).elim
      | unended first' rest' hrest' =>
          obtain ⟨rfl, -, rfl⟩ := split_statement endPos first first' hts
            (statements_stop rest hrest) (statements_stop rest' hrest')
          cases he
          obtain rfl := eq_of_heq (ihFirst trivial first' rfl rfl)
          obtain rfl := eq_of_heq (ihRest trivial rest' rfl rfl)
          rfl

/-- The tokens of a program can be taken apart in one way only. -/
theorem Derivation.statements_subsingleton (ts : List (Token π)) :
    Subsingleton (Σ ss, Derivation .statements ts ss) := by
  refine ⟨fun d d' => ?_⟩
  obtain ⟨ss, d⟩ := d
  obtain ⟨ss', d'⟩ := d'
  obtain rfl : ss = ss' := congrArg Prod.fst ((d.reads endPos).2.symm.trans (d'.reads endPos).2)
  obtain rfl := eq_of_heq (d.unique endPos trivial d' rfl rfl)
  rfl

end

end Grammar

end MonkeyLang
