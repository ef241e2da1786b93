import MonkeyLang.Proofs.Grammar.Loosen
import MonkeyLang.Proofs.Token.Spell
import MonkeyLang.Proofs.Tree.WellFormed

/-!
# The texts of trees are derived

The text of a tree spells tokens that the grammar derives, as a tree that is the
same but for annotations.  The text of every expression is that of a postfixed
expression, so it can stand in any place of an expression as it is.
-/

namespace MonkeyLang

/-- An operator and the gap behind it. -/
theorem Spells.op_append {cs : List Char} {ts : List (Token Unit)} (h : Spells cs ts)
    (op : BinaryOp) :
    Spells (op.sign.toList ++ ' ' :: cs) (⟨op.kind, op.sign, ()⟩ :: ts) := by
  have hgap := h.gap_cons
  cases op with
  | equal | notEqual | lessEqual | greaterEqual => exact hgap.signEqual_cons rfl rfl
  | less | greater => exact hgap.sign_cons rfl (.inr ⟨' ', cs, rfl, by decide⟩)
  | _ => exact hgap.sign_cons rfl (.inl rfl)

namespace Grammar

/-- Characters spell tokens that a symbol derives, as a tree that satisfies
`P`. -/
def Written (s : Symbol Unit) (cs : List Char) (P : s.Tree → Prop) : Prop :=
  ∃ ts a, Spells cs ts ∧ Derived s ts a ∧ P a

variable {x : ExprSymbol} {cs ds : List Char}

/-! ## Expressions -/

theorem Written.loosen {P : Expr (Token Unit) → Prop} (h : Written (.expr x) cs P)
    {y : ExprSymbol} (hrank : y.rank ≤ x.rank) : Written (.expr y) cs P := by
  obtain ⟨ts, e, hs, hd, hP⟩ := h
  exact ⟨ts, e, hs, hd.loosen hrank, hP⟩

theorem written_group {P : Expr (Token Unit) → Prop} (h : Written (.expr .expression) cs P) :
    Written (.expr .postfixed) ('(' :: (cs ++ [')'])) P := by
  obtain ⟨ts, e, hs, ⟨d⟩, hP⟩ := h
  have hspell := (hs.sign_end (c := ')') rfl rfl).sign_cons (c := '(') rfl (.inl rfl)
  exact ⟨_, e, hspell, (Derivation.group rfl d rfl).derived.loosen (by decide), hP⟩

theorem written_ident {name : String} (h : IsName name) :
    Written (.expr .postfixed) name.toList fun e => e.erase = .ident ⟨(), name⟩ := by
  have hspell := spells_nil.word_append h.ne_nil h.letters breaks_nil
  rw [List.append_nil, String.ofList_toList, h.kind] at hspell
  exact ⟨_, _, hspell, (Derivation.ident rfl).derived.loosen (by decide), rfl⟩

theorem written_bool (b : Bool) :
    Written (.expr .postfixed) (if b then "true" else "false").toList
      fun e => e.erase = .bool () b := by
  cases b with
  | true =>
      have hspell := spells_nil.keyword_append (w := "true") rfl rfl (by decide) breaks_nil
      exact ⟨_, _, hspell, (Derivation.yes rfl).derived.loosen (by decide), rfl⟩
  | false =>
      have hspell := spells_nil.keyword_append (w := "false") rfl rfl (by decide) breaks_nil
      exact ⟨_, _, hspell, (Derivation.no rfl).derived.loosen (by decide), rfl⟩

/-- A number that is not negative is read as itself. -/
theorem integer?_toDigits {n : Int64} (h : 0 ≤ n) :
    Reading.integer? (String.ofList (Nat.toDigits 10 n.toNatClampNeg)) = some n := by
  have hlt := n.toNatClampNeg_lt
  rw [Reading.integer?, String.toList_ofList, Nat.ofDigitChars_ten_toDigits]
  simp only [hlt, if_true]
  rw [n.ofNat_toNatClampNeg h]

theorem written_int {n : Int64} (h : 0 ≤ n) :
    Written (.expr .postfixed) n.toInt.repr.toList fun e => e.erase = .int () n := by
  have hrepr : n.toInt.repr.toList = Nat.toDigits 10 n.toNatClampNeg := by
    have hint : 0 ≤ n.toInt := by simpa using Int64.le_iff_toInt_le.mp h
    rw [Int.repr_eq_if, if_pos hint, Nat.repr_eq_ofList_toDigits, String.toList_ofList]
    rfl
  have hspell := spells_nil.digits_append (w := Nat.toDigits 10 n.toNatClampNeg)
    Nat.toDigits_ne_nil (fun c hc => Nat.isDigit_of_mem_toDigits (by decide) (by decide) hc)
    breaks_nil
  rw [List.append_nil] at hspell
  have hd := Derivation.int (t := ⟨.integer, _, ()⟩) rfl (integer?_toDigits h)
  rw [hrepr]
  exact ⟨_, _, hspell, hd.derived.loosen (by decide), rfl⟩

theorem written_str {s : String} (h : '"' ∉ s.toList) :
    Written (.expr .postfixed) ('"' :: (s.toList ++ ['"'])) fun e => e.erase = .str () s := by
  have hspell := spells_string h
  rw [String.ofList_toList] at hspell
  exact ⟨_, _, hspell, (Derivation.str rfl).derived.loosen (by decide), rfl⟩

/-- The text of an expression does not begin with an equals sign. -/
theorem ne_equal_of_spells {ts : List (Token Unit)} {e : Expr (Token Unit)} (hs : Spells cs ts)
    (hd : Derived (.expr .postfixed) ts e) : ∃ c r, cs = c :: r ∧ c ≠ '=' := by
  obtain ⟨d⟩ := hd
  obtain ⟨t, us, rfl, ht⟩ := d.first rfl
  have heq := hs.bareTokens_eq
  cases cs with
  | nil => exact absurd heq.symm (by rw [bareTokens_nil]; exact List.cons_ne_nil _ _)
  | cons c cs =>
      refine ⟨c, cs, rfl, ?_⟩
      rintro rfl
      have hkind : (Lexeme.munchSign '=' cs).1.kind.startsPrimary = false := by
        rw [Lexeme.munchSign.eq_def]
        split
        · next hk =>
          obtain rfl := Option.some.inj hk
          rfl
        · rfl
      obtain ⟨hgap, -, -, hmunch⟩ := munch_of_ofSign? (c := '=') (k := .equal) rfl cs
      rw [bareTokens_munch hgap, hmunch] at heq
      obtain ⟨rfl, -⟩ := List.cons.inj heq
      exact absurd (hkind.symm.trans ht) Bool.false_ne_true

theorem written_unary {r : Expr Unit} (op : UnaryOp)
    (h : Written (.expr .postfixed) cs fun e => e.erase = r) :
    Written (.expr .expression) (op.sign.toList ++ cs) fun e => e.erase = .unary () op r := by
  obtain ⟨ts, e, hs, hd, rfl⟩ := h
  obtain ⟨d⟩ := hd.loosen (y := .unary) (by decide)
  have hspell : Spells (op.sign.toList ++ cs) (⟨op.kind, op.sign, ()⟩ :: ts) := by
    cases op with
    | not => exact hs.sign_cons rfl (.inr (ne_equal_of_spells hs hd))
    | negate => exact hs.sign_cons rfl (.inl rfl)
  exact ⟨_, _, hspell, (d.unaryStep rfl).derived.loosen (by decide), rfl⟩

theorem written_binary {l r : Expr Unit} (op : BinaryOp)
    (hl : Written (.expr .postfixed) cs fun e => e.erase = l)
    (hr : Written (.expr .postfixed) ds fun e => e.erase = r) :
    Written (.expr .expression) (cs ++ ' ' :: (op.sign.toList ++ ' ' :: ds))
      fun e => e.erase = .binary () op l r := by
  obtain ⟨ts, e, hs, hd, rfl⟩ := hl
  obtain ⟨us, e', hs', hd', rfl⟩ := hr
  have hrank : ∀ l : OperatorLevel, (operandSymbol l).rank ≤ ExprSymbol.postfixed.rank := by
    intro l
    cases l <;> decide
  obtain ⟨d⟩ := hd.loosen (hrank op.level)
  obtain ⟨d'⟩ := hd'.loosen (hrank op.level)
  have hspell := hs.append (hs'.op_append op).gap_cons (breaks_gap _)
  have hop := d.level (.chainStep (t := ⟨op.kind, op.sign, ()⟩) rfl rfl d' .chainEnd)
  rw [List.append_nil] at hop
  exact ⟨_, _, hspell, hop.derived.loosen (Nat.zero_le _), rfl⟩

theorem written_assign {name : String} {v : Expr Unit} (hname : IsName name)
    (hv : Written (.expr .postfixed) ds fun e => e.erase = v) :
    Written (.expr .expression) (name.toList ++ ' ' :: '=' :: ' ' :: ds)
      fun e => e.erase = .assign () ⟨(), name⟩ v := by
  obtain ⟨ts, e, hs, hd, rfl⟩ := hv
  obtain ⟨d⟩ := hd.loosen (y := .expression) (Nat.zero_le _)
  have hsign := hs.gap_cons.sign_cons (c := '=') rfl (.inr ⟨' ', ds, rfl, by decide⟩)
  have hspell := hsign.gap_cons.word_append hname.ne_nil hname.letters (breaks_gap _)
  rw [String.ofList_toList, hname.kind] at hspell
  exact ⟨_, _, hspell, ((Derivation.targetName rfl).assign rfl d).derived, rfl⟩

theorem written_index {l i : Expr Unit} (hl : Written (.expr .postfixed) cs fun e => e.erase = l)
    (hi : Written (.expr .postfixed) ds fun e => e.erase = i) :
    Written (.expr .expression) (cs ++ '[' :: (ds ++ [']'])) fun e => e.erase = .index () l i := by
  obtain ⟨ts, e, hs, hd, rfl⟩ := hl
  obtain ⟨us, e', hs', hd', rfl⟩ := hi
  obtain ⟨d'⟩ := hd'.loosen (y := .expression) (Nat.zero_le _)
  have hbrackets := (hs'.sign_end (c := ']') rfl rfl).sign_cons (c := '[') rfl (.inl rfl)
  have hspell := hs.append hbrackets (breaks_of_ofSign? (k := .leftBracket) rfl _)
  have step : Derivation (.suffixes e)
      (signToken .leftBracket '[' :: (us ++ [signToken .rightBracket ']']))
      (.index (signToken .leftBracket '[') e e') := .indexStep rfl d' rfl .suffixEnd
  exact ⟨_, _, hspell, (hd.postfixed_append step).loosen (Nat.zero_le _), rfl⟩

/-! ## Lists -/

section

variable {item : Symbol Unit} {γ δ : Type} {g : item.Tree → δ} {g' : γ → δ} {text : γ → String}

/-- Items with commas between them, at least one. -/
theorem written_separated {y : γ} (ys : List γ)
    (h : ∀ z ∈ y :: ys, Written item (text z).toList fun a => g a = g' z) :
    Written (.separated item) (commaSeparated ((y :: ys).map text)).toList
      fun as => as.map g = (y :: ys).map g' := by
  induction ys generalizing y with
  | nil =>
      obtain ⟨ts, a, hs, ⟨d⟩, ha⟩ := h y List.mem_cons_self
      refine ⟨ts, [a], ?_, d.one.derived, by simp [ha]⟩
      simpa [commaSeparated] using hs
  | cons z ys ih =>
      obtain ⟨ts, a, hs, ⟨d⟩, ha⟩ := h y List.mem_cons_self
      obtain ⟨us, as, hs', ⟨d'⟩, has⟩ := ih fun w hw => h w (List.mem_cons_of_mem _ hw)
      have htext : (commaSeparated ((y :: z :: ys).map text)).toList =
          (text y).toList ++ ',' :: ' ' :: (commaSeparated ((z :: ys).map text)).toList := by
        simp [commaSeparated, String.toList_append]
      have hcomma := hs'.gap_cons.sign_cons (c := ',') (k := .comma) rfl (.inl rfl)
      have hspell := hs.append hcomma (breaks_of_ofSign? (k := .comma) rfl _)
      rw [htext]
      refine ⟨_, a :: as, hspell, (d.more rfl d').derived, ?_⟩
      exact congr (congrArg List.cons ha) has

/-- Items with commas between them, or none. -/
theorem written_listOf (ys : List γ)
    (h : ∀ z ∈ ys, Written item (text z).toList fun a => g a = g' z) :
    Written (.listOf item) (commaSeparated (ys.map text)).toList
      fun as => as.map g = ys.map g' := by
  cases ys with
  | nil => exact ⟨[], [], spells_nil, Derivation.empty.derived, rfl⟩
  | cons y ys =>
      obtain ⟨ts, as, hs, ⟨d⟩, has⟩ := written_separated ys h
      exact ⟨ts, as, hs, d.items.derived, has⟩

end

theorem written_pair {k v : Expr Unit} (hk : Written (.expr .postfixed) cs fun e => e.erase = k)
    (hv : Written (.expr .postfixed) ds fun e => e.erase = v) :
    Written .pair (cs ++ ':' :: ' ' :: ds) fun kv => (kv.1.erase, kv.2.erase) = (k, v) := by
  obtain ⟨ts, e, hs, hd, rfl⟩ := hk
  obtain ⟨us, e', hs', hd', rfl⟩ := hv
  obtain ⟨d⟩ := hd.loosen (y := .expression) (Nat.zero_le _)
  obtain ⟨d'⟩ := hd'.loosen (y := .expression) (Nat.zero_le _)
  have hcolon := hs'.gap_cons.sign_cons (c := ':') (k := .colon) rfl (.inl rfl)
  have hspell := hs.append hcolon (breaks_of_ofSign? (k := .colon) rfl _)
  exact ⟨_, (e, e'), hspell, (d.pair rfl d').derived, rfl⟩

theorem written_name {name : String} (h : IsName name) :
    Written .name name.toList fun x => x.map (fun _ => ()) = ⟨(), name⟩ := by
  have hspell := spells_nil.word_append h.ne_nil h.letters breaks_nil
  rw [List.append_nil, String.ofList_toList, h.kind] at hspell
  exact ⟨_, _, hspell, (Derivation.name rfl).derived, rfl⟩

/-! ## Statements and blocks -/

theorem written_declare (kind : BindingKind) {name : String} {v : Expr Unit} (hname : IsName name)
    (hv : Written (.expr .postfixed) ds fun e => e.erase = v) :
    Written .statement (kind.word.toList ++ ' ' :: (name.toList ++ ' ' :: '=' :: ' ' :: ds))
      fun s => s.erase = .declare kind () ⟨(), name⟩ v := by
  obtain ⟨ts, e, hs, hd, rfl⟩ := hv
  obtain ⟨d⟩ := hd.loosen (y := .expression) (Nat.zero_le _)
  have hsign := hs.gap_cons.sign_cons (c := '=') rfl (.inr ⟨' ', ds, rfl, by decide⟩)
  have hbound := hsign.gap_cons.word_append hname.ne_nil hname.letters (breaks_gap _)
  rw [String.ofList_toList, hname.kind] at hbound
  have hword : Kind.ofWord kind.word = kind.kind := by cases kind <;> rfl
  have hne : kind.word.toList.isEmpty = false := by cases kind <;> rfl
  have hletters : kind.word.toList.all isLetter = true := by cases kind <;> decide
  have hspell := hbound.gap_cons.keyword_append hword hne hletters (breaks_gap _)
  exact ⟨_, _, hspell, (d.declare rfl rfl rfl).derived, rfl⟩

theorem written_ret {v : Expr Unit} (hv : Written (.expr .postfixed) ds fun e => e.erase = v) :
    Written .statement ("return".toList ++ ' ' :: ds) fun s => s.erase = .ret () v := by
  obtain ⟨ts, e, hs, hd, rfl⟩ := hv
  obtain ⟨d⟩ := hd.loosen (y := .expression) (Nat.zero_le _)
  have hspell := hs.gap_cons.keyword_append (w := "return") rfl rfl (by decide) (breaks_gap _)
  exact ⟨_, _, hspell, (d.ret rfl).derived, rfl⟩

theorem written_exprStmt {v : Expr Unit}
    (hv : Written (.expr .postfixed) ds fun e => e.erase = v) :
    Written .statement ds fun s => s.erase = .expr () v := by
  obtain ⟨ts, e, hs, hd, rfl⟩ := hv
  obtain ⟨d⟩ := hd.loosen (y := .expression) (Nat.zero_le _)
  obtain ⟨t, us, rfl, -⟩ := d.first rfl
  exact ⟨_, _, hs, d.expr.derived, rfl⟩

/-- Statements with semicolons between them. -/
theorem written_statements {γ δ : Type} {g : Stmt (Token Unit) → δ} {g' : γ → δ}
    {text : γ → String} (ys : List γ)
    (h : ∀ z ∈ ys, Written .statement (text z).toList fun s => g s = g' z) :
    Written .statements (semicolonSeparated (ys.map text)).toList
      fun ss => ss.map g = ys.map g' := by
  induction ys with
  | nil => exact ⟨[], [], spells_nil, Derivation.noStatements.derived, rfl⟩
  | cons y ys ih =>
      obtain ⟨ts, s, hs, ⟨d⟩, hy⟩ := h y List.mem_cons_self
      obtain ⟨us, ss, hs', ⟨d'⟩, hys⟩ := ih fun w hw => h w (List.mem_cons_of_mem _ hw)
      cases ys with
      | nil =>
          have hend : ¬Resumes ([] : List (Token Unit)) := by simp [Resumes]
          have dlast := d.unended .noStatements hend
          rw [List.append_nil] at dlast
          refine ⟨ts, [s], ?_, dlast.derived, congrArg (· :: []) hy⟩
          simpa [semicolonSeparated] using hs
      | cons z ys =>
          have htext : (semicolonSeparated ((y :: z :: ys).map text)).toList =
              (text y).toList ++ ';' :: ' ' :: (semicolonSeparated ((z :: ys).map text)).toList := by
            simp [semicolonSeparated, String.toList_append]
          have hsemi := hs'.gap_cons.sign_cons (c := ';') (k := .semicolon) rfl (.inl rfl)
          have hspell := hs.append hsemi (breaks_of_ofSign? (k := .semicolon) rfl _)
          rw [htext]
          exact ⟨_, s :: ss, hspell, (d.ended rfl d').derived, congr (congrArg List.cons hy) hys⟩

theorem written_block {texts : List String} {us : List (Stmt Unit)}
    (h : Written .statements (semicolonSeparated texts).toList fun ss => ss.map Stmt.erase = us) :
    Written .block (bracedStatements texts).toList
      fun b => b.map (fun _ => ()) = .mk () us := by
  obtain ⟨ts, ss, hs, ⟨d⟩, hss⟩ := h
  have hblock : (Block.mk (signToken .leftBrace '\x7b') ss).map (fun _ => ()) = .mk () us := by
    rw [Block.map, Stmt.mapList_eq, ← hss]
    rfl
  have hd : Derived .block (signToken .leftBrace '\x7b' :: (ts ++ [signToken .rightBrace '\x7d']))
      (.mk (signToken .leftBrace '\x7b') ss) := (d.block rfl rfl).derived
  refine ⟨_, _, ?_, hd, hblock⟩
  cases texts with
  | nil =>
      have hclose := hs.sign_end (c := '\x7d') (k := .rightBrace) rfl rfl
      exact hclose.gap_cons.sign_cons (c := '\x7b') rfl (.inl rfl)
  | cons text texts =>
      have hclose := (spells_nil.sign_cons (c := '\x7d') (k := .rightBrace) rfl (.inl rfl)).gap_cons
      have hbody := (hs.append hclose (breaks_gap _)).gap_cons
      have hspell := hbody.sign_cons (c := '\x7b') (k := .leftBrace) rfl (.inl rfl)
      simpa [bracedStatements, String.toList_append] using hspell

/-! ## Expressions with blocks -/

theorem written_loop {bs : List Char} {c : Expr Unit} {b : Block Unit}
    (hc : Written (.expr .postfixed) cs fun e => e.erase = c)
    (hb : Written .block bs fun b' => b'.map (fun _ => ()) = b) :
    Written (.expr .postfixed) ("while".toList ++ ' ' :: (cs ++ ' ' :: bs))
      fun e => e.erase = .loop () c b := by
  obtain ⟨ts, e, hs, hd, rfl⟩ := hc
  obtain ⟨us, b', hs', ⟨d'⟩, rfl⟩ := hb
  obtain ⟨d⟩ := hd.loosen (y := .expression) (Nat.zero_le _)
  have hhead := (hs.append hs'.gap_cons (breaks_gap _)).gap_cons
  have hspell := hhead.keyword_append (w := "while") rfl rfl (by decide) (breaks_gap _)
  exact ⟨_, _, hspell, (d.loop rfl d').derived.loosen (by decide), rfl⟩

theorem written_cond {bs as : List Char} {c : Expr Unit} {b : Block Unit}
    {alt : Option (Block Unit)} (hc : Written (.expr .postfixed) cs fun e => e.erase = c)
    (hb : Written .block bs fun b' => b'.map (fun _ => ()) = b)
    (ha : Written .alternative as fun a => Block.mapOption (fun _ => ()) a = alt)
    (has : Breaks as) :
    Written (.expr .postfixed) ("if".toList ++ ' ' :: (cs ++ ' ' :: (bs ++ as)))
      fun e => e.erase = .cond () c b alt := by
  obtain ⟨ts, e, hs, hd, rfl⟩ := hc
  obtain ⟨us, b', hs', ⟨d'⟩, rfl⟩ := hb
  obtain ⟨vs, a, hs'', ⟨d''⟩, rfl⟩ := ha
  obtain ⟨d⟩ := hd.loosen (y := .expression) (Nat.zero_le _)
  have hblocks := (hs'.append hs'' has).gap_cons
  have hhead := (hs.append hblocks (breaks_gap _)).gap_cons
  have hspell := hhead.keyword_append (w := "if") rfl rfl (by decide) (breaks_gap _)
  exact ⟨_, _, hspell, (d.conditional rfl d' d'').derived.loosen (by decide), rfl⟩

theorem written_else {b : Block Unit} (hb : Written .block cs fun b' => b'.map (fun _ => ()) = b) :
    Written .alternative (' ' :: ("else".toList ++ ' ' :: cs))
      fun a => Block.mapOption (fun _ => ()) a = some b := by
  obtain ⟨ts, b', hs, ⟨d⟩, rfl⟩ := hb
  have hspell := hs.gap_cons.keyword_append (w := "else") rfl rfl (by decide) (breaks_gap _)
  exact ⟨_, _, hspell.gap_cons, (d.elseBlock rfl).derived, rfl⟩

theorem written_func {α : Type} {ps : List (Ident α)} {b : Block Unit}
    (hnames : ∀ x ∈ ps, IsName x.name)
    (hb : Written .block ds fun b' => b'.map (fun _ => ()) = b) :
    Written (.expr .postfixed)
      ("func".toList ++ '(' :: ((commaSeparated (ps.map (·.name))).toList ++ ')' :: ' ' :: ds))
      fun e => e.erase = .func () (ps.map (·.map fun _ => ())) b := by
  have hparams := written_listOf ps fun x hx => written_name (hnames x hx)
  obtain ⟨ts, xs, hs, ⟨d⟩, hxs⟩ := hparams
  obtain ⟨us, b', hs', ⟨d'⟩, rfl⟩ := hb
  have hclose := hs'.gap_cons.sign_cons (c := ')') (k := .rightParen) rfl (.inl rfl)
  have hbody := hs.append hclose (breaks_of_ofSign? (k := .rightParen) rfl _)
  have hopen := hbody.sign_cons (c := '(') (k := .leftParen) rfl (.inl rfl)
  have hspell := hopen.keyword_append (w := "func") rfl rfl (by decide)
    (breaks_of_ofSign? (k := .leftParen) rfl _)
  have hd := (d.func (t := ⟨.kwFunc, "func", ()⟩) (o := signToken .leftParen '(')
    (c := signToken .rightParen ')') rfl rfl rfl d').derived
  refine ⟨_, _, hspell, hd.loosen (by decide), ?_⟩
  exact congrArg (Expr.func () · _) hxs

theorem written_call {callee : Expr Unit} {args : List (Expr Unit)}
    (hcallee : Written (.expr .postfixed) cs fun e => e.erase = callee)
    (hargs : Written (.listOf (.expr .expression)) ds fun es => es.map Expr.erase = args) :
    Written (.expr .postfixed) (cs ++ '(' :: (ds ++ [')']))
      fun e => e.erase = .call () callee args := by
  obtain ⟨ts, e, hs, hd, rfl⟩ := hcallee
  obtain ⟨us, es, hs', ⟨d'⟩, rfl⟩ := hargs
  have hparens := (hs'.sign_end (c := ')') rfl rfl).sign_cons (c := '(') rfl (.inl rfl)
  have hspell := hs.append hparens (breaks_of_ofSign? (k := .leftParen) rfl _)
  have step : Derivation (.suffixes e)
      (signToken .leftParen '(' :: (us ++ [signToken .rightParen ')']))
      (.call (signToken .leftParen '(') e es) := .callStep rfl d' rfl .suffixEnd
  refine ⟨_, _, hspell, hd.postfixed_append step, ?_⟩
  exact congrArg (Expr.call () _ ·) (Expr.mapList_eq _ es)

theorem written_array {elements : List (Expr Unit)}
    (h : Written (.listOf (.expr .expression)) cs fun es => es.map Expr.erase = elements) :
    Written (.expr .postfixed) ('[' :: (cs ++ [']'])) fun e => e.erase = .array () elements := by
  obtain ⟨ts, es, hs, ⟨d⟩, rfl⟩ := h
  have hspell := (hs.sign_end (c := ']') rfl rfl).sign_cons (c := '[') rfl (.inl rfl)
  refine ⟨_, _, hspell, (d.array rfl rfl).derived.loosen (by decide), ?_⟩
  exact congrArg (Expr.array () ·) (Expr.mapList_eq _ es)

theorem written_hash {ps : List (Expr Unit × Expr Unit)}
    (h : Written (.listOf .pair) cs fun kvs => kvs.map (fun kv => (kv.1.erase, kv.2.erase)) = ps) :
    Written (.expr .postfixed) ('\x7b' :: (cs ++ ['\x7d'])) fun e => e.erase = .hash () ps := by
  obtain ⟨ts, kvs, hs, ⟨d⟩, rfl⟩ := h
  have hspell := (hs.sign_end (c := '\x7d') rfl rfl).sign_cons (c := '\x7b') rfl (.inl rfl)
  refine ⟨_, _, hspell, (d.hash rfl rfl).derived.loosen (by decide), ?_⟩
  exact congrArg (Expr.hash () ·) (Expr.mapPairs_eq _ kvs)

/-! ## Every tree -/

variable {α : Type}

theorem written_exprs {es : List (Expr α)}
    (h : ∀ e ∈ es, Written (.expr .expression) e.render.toList fun e' => e'.erase = e.erase) :
    Written (.listOf (.expr .expression)) (commaSeparated (Expr.renderList es)).toList
      fun es' => es'.map Expr.erase = Expr.mapList (fun _ => ()) es := by
  rw [Expr.renderList_eq, Expr.mapList_eq]
  exact written_listOf es h

theorem written_pairs {ps : List (Expr α × Expr α)}
    (h : ∀ p ∈ ps, Written .pair (p.1.render ++ ": " ++ p.2.render).toList
      fun kv => (kv.1.erase, kv.2.erase) = (p.1.erase, p.2.erase)) :
    Written (.listOf .pair) (commaSeparated (Expr.renderPairs ps)).toList
      fun kvs => kvs.map (fun kv => (kv.1.erase, kv.2.erase)) =
        Expr.mapPairs (fun _ => ()) ps := by
  rw [Expr.renderPairs_eq, Expr.mapPairs_eq]
  exact written_listOf ps h

/-- An alternative is set off by a gap. -/
theorem breaks_renderElse (b : Option (Block α)) : Breaks (Block.renderElse b).toList := by
  cases b with
  | none => exact breaks_nil
  | some b =>
      have htext : (Block.renderElse (some b)).toList =
          ' ' :: ("else".toList ++ ' ' :: b.render.toList) := by
        simp [Block.renderElse, String.toList_append]
      rw [htext]
      exact breaks_gap _

mutual

/-- The text of an expression is that of a postfixed one. -/
theorem Expr.written (e : Expr α) (h : e.WellFormed) :
    Written (.expr .postfixed) e.render.toList fun e' => e'.erase = e.erase := by
  cases e with
  | ident id => exact written_ident h
  | int t n => exact written_int h
  | str t s =>
      have hs : Written (.expr .postfixed) _ fun e' => e'.erase = (Expr.str t s : Expr α).erase :=
        written_str h
      simpa [Expr.render, String.toList_append] using hs
  | bool t b => exact written_bool b
  | unary t op r =>
      have hr : Written (.expr .postfixed) _ fun e' => e'.erase = (Expr.unary t op r).erase :=
        written_group (written_unary op (Expr.written r h))
      simpa [Expr.render, String.toList_append] using hr
  | binary t op l r =>
      have hb : Written (.expr .postfixed) _ fun e' => e'.erase = (Expr.binary t op l r).erase :=
        written_group (written_binary op (Expr.written l h.1) (Expr.written r h.2))
      simpa [Expr.render, String.toList_append] using hb
  | assign t x v =>
      have ha : Written (.expr .postfixed) _ fun e' => e'.erase = (Expr.assign t x v).erase :=
        written_group (written_assign h.1 (Expr.written v h.2))
      simpa [Expr.render, String.toList_append] using ha
  | cond t c b alt =>
      obtain ⟨hc, hb, halt⟩ := h
      have hcond : Written (.expr .postfixed) _ fun e' => e'.erase = (Expr.cond t c b alt).erase :=
        written_cond (Expr.written c hc) (Block.written b hb)
          (Block.writtenElse alt halt) (breaks_renderElse alt)
      simpa [Expr.render, String.toList_append] using hcond
  | loop t c b =>
      have hl : Written (.expr .postfixed) _ fun e' => e'.erase = (Expr.loop t c b).erase :=
        written_loop (Expr.written c h.1) (Block.written b h.2)
      simpa [Expr.render, String.toList_append] using hl
  | func t ps b =>
      have hf : Written (.expr .postfixed) _ fun e' => e'.erase = (Expr.func t ps b).erase :=
        written_func h.1 (Block.written b h.2)
      simpa [Expr.render, String.toList_append] using hf
  | call t e es =>
      have hc : Written (.expr .postfixed) _ fun e' => e'.erase = (Expr.call t e es).erase :=
        written_call (Expr.written e h.1) (written_exprs (Expr.writtenList es h.2))
      simpa [Expr.render, String.toList_append] using hc
  | array t es =>
      have ha : Written (.expr .postfixed) _ fun e' => e'.erase = (Expr.array t es).erase :=
        written_array (written_exprs (Expr.writtenList es h))
      simpa [Expr.render, String.toList_append] using ha
  | index t l i =>
      have hi : Written (.expr .postfixed) _ fun e' => e'.erase = (Expr.index t l i).erase :=
        written_group (written_index (Expr.written l h.1) (Expr.written i h.2))
      simpa [Expr.render, String.toList_append] using hi
  | hash t ps =>
      have hp : Written (.expr .postfixed) _ fun e' => e'.erase = (Expr.hash t ps).erase :=
        written_hash (written_pairs (Expr.writtenPairs ps h))
      simpa [Expr.render, String.toList_append] using hp

theorem Expr.writtenList (es : List (Expr α)) (h : Expr.WellFormedList es) :
    ∀ e ∈ es, Written (.expr .expression) e.render.toList fun e' => e'.erase = e.erase := by
  cases es with
  | nil => exact fun _ he => absurd he List.not_mem_nil
  | cons e es =>
      have hfirst := Expr.written e h.1
      have hmore := Expr.writtenList es h.2
      intro a ha
      rcases List.mem_cons.mp ha with rfl | ha
      · exact hfirst.loosen (Nat.zero_le _)
      · exact hmore a ha

theorem Expr.writtenPairs (ps : List (Expr α × Expr α)) (h : Expr.WellFormedPairs ps) :
    ∀ p ∈ ps, Written .pair (p.1.render ++ ": " ++ p.2.render).toList
      fun kv => (kv.1.erase, kv.2.erase) = (p.1.erase, p.2.erase) := by
  match ps with
  | [] => exact fun _ hp => absurd hp List.not_mem_nil
  | (k, v) :: ps =>
      have hfirst := written_pair (Expr.written k h.1.1) (Expr.written v h.1.2)
      have hmore := Expr.writtenPairs ps h.2
      intro p hp
      rcases List.mem_cons.mp hp with rfl | hp
      · simpa [String.toList_append] using hfirst
      · exact hmore p hp

theorem Stmt.written (s : Stmt α) (h : s.WellFormed) :
    Written .statement s.render.toList fun s' => s'.erase = s.erase := by
  cases s with
  | declare k t x v =>
      have hd : Written .statement _ fun s' => s'.erase = (Stmt.declare k t x v).erase :=
        written_declare k h.1 (Expr.written v h.2)
      simpa [Stmt.render, String.toList_append] using hd
  | ret t v =>
      have hr : Written .statement _ fun s' => s'.erase = (Stmt.ret t v).erase :=
        written_ret (Expr.written v h)
      simpa [Stmt.render, String.toList_append] using hr
  | expr t v => exact written_exprStmt (Expr.written v h)

theorem Stmt.writtenList (ss : List (Stmt α)) (h : Stmt.WellFormedList ss) :
    ∀ s ∈ ss, Written .statement s.render.toList fun s' => s'.erase = s.erase := by
  cases ss with
  | nil => exact fun _ hs => absurd hs List.not_mem_nil
  | cons s ss =>
      have hfirst := Stmt.written s h.1
      have hmore := Stmt.writtenList ss h.2
      intro a ha
      rcases List.mem_cons.mp ha with rfl | ha
      · exact hfirst
      · exact hmore a ha

theorem Block.written (b : Block α) (h : b.WellFormed) :
    Written .block b.render.toList fun b' => b'.map (fun _ => ()) = b.map fun _ => () := by
  cases b with
  | mk t ss =>
      have hss := written_statements ss (Stmt.writtenList ss h)
      rw [Block.render, Block.map, Stmt.renderList_eq, Stmt.mapList_eq]
      exact written_block hss

theorem Block.writtenElse (b : Option (Block α)) (h : Block.WellFormedOption b) :
    Written .alternative (Block.renderElse b).toList
      fun a => Block.mapOption (fun _ => ()) a = Block.mapOption (fun _ => ()) b := by
  cases b with
  | none => exact ⟨[], none, spells_nil, Derivation.noElse.derived, rfl⟩
  | some b =>
      have hb : Written .alternative _ fun a => Block.mapOption (fun _ => ()) a =
          Block.mapOption (fun _ => ()) (some b) := written_else (Block.written b h)
      simpa [Block.renderElse, String.toList_append] using hb

end

theorem Program.written (p : Program α) (h : p.WellFormed) :
    Written .statements p.render.toList
      fun ss => ss.map Stmt.erase = p.statements.map Stmt.erase := by
  rw [Program.render, Stmt.renderList_eq]
  exact written_statements p.statements (Stmt.writtenList p.statements h)

end Grammar

end MonkeyLang
