import MonkeyLang.Proofs.Grammar.Complete

/-!
# Where derivations end

Two derivations of one symbol at the front of the same tokens cover the same of
them and have the same tree, if what follows each of them cannot be taken for
more of it.  For both are read as their tree, and reading gives one reply.
-/

namespace MonkeyLang

namespace Grammar

open Reading

variable {π : Type} {ts us r r' : List (Token π)}

theorem append_cons_inj {c c' : Token π} (h : ts ++ c :: r = us ++ c' :: r) :
    ts = us ∧ c = c' := by
  have h' : (ts ++ [c]) ++ r = (us ++ [c']) ++ r := by simpa using h
  obtain ⟨rfl, hc⟩ := List.append_inj' (List.append_cancel_right h') rfl
  exact ⟨rfl, List.head_eq_of_cons_eq hc⟩

/-- What one parser reads from the same tokens is the same. -/
theorem split_of_gives {α : Type} {bound : List (Token π) → Nat} {a b : α}
    (parser : (ts : List (Token π)) → Reply π α (bound ts)) (h : ts ++ r = us ++ r')
    (ha : (parser (ts ++ r)).Gives a r) (hb : (parser (us ++ r')).Gives b r') :
    ts = us ∧ a = b ∧ r = r' := by
  rw [← h] at hb
  obtain ⟨rfl, rfl⟩ := ha.unique hb
  exact ⟨List.append_cancel_right h, rfl, rfl⟩

/-- What one parser reads behind the same first token is the same. -/
theorem split_of_gives_cons {α : Type} {bound : List (Token π) → Nat} {a b : α} {t t' : Token π}
    (parser : Token π → (ts : List (Token π)) → Reply π α (bound ts))
    (h : t :: ts ++ r = t' :: us ++ r') (ha : (parser t (ts ++ r)).Gives a r)
    (hb : (parser t' (us ++ r')).Gives b r') : t :: ts = t' :: us ∧ a = b ∧ r = r' := by
  obtain ⟨rfl, htail⟩ := List.cons.inj h
  have htail : ts ++ r = us ++ r' := htail
  obtain ⟨rfl, hab, hr⟩ := split_of_gives (parser t) htail ha hb
  exact ⟨rfl, hab, hr⟩

section

variable (endPos : π)
include endPos

theorem split_expression {e e' : Expr (Token π)} (d : Derivation (.expr .expression) ts e)
    (d' : Derivation (.expr .expression) us e') (h : ts ++ r = us ++ r')
    (hr : Stops .lowest r) (hr' : Stops .lowest r') : ts = us ∧ e = e' ∧ r = r' :=
  split_of_gives (expr endPos .lowest) h (d.reads endPos r hr) (d'.reads endPos r' hr')

theorem split_operand {l : OperatorLevel} {e e' : Expr (Token π)}
    (d : Derivation (.expr (operandSymbol l)) ts e)
    (d' : Derivation (.expr (operandSymbol l)) us e') (h : ts ++ r = us ++ r')
    (hr : Stops l.precedence r) (hr' : Stops l.precedence r') : ts = us ∧ e = e' ∧ r = r' := by
  have hread := (d.reads endPos).operand (Nat.le_refl _) hr e r (climb_gives hr e)
  have hread' := (d'.reads endPos).operand (Nat.le_refl _) hr' e' r' (climb_gives hr' e')
  exact split_of_gives (expr endPos l.precedence) h hread hread'

theorem split_primary {e e' : Expr (Token π)} (d : Derivation (.expr .primary) ts e)
    (d' : Derivation (.expr .primary) us e') (h : ts ++ r = us ++ r')
    (hr : Stops .index r) (hr' : Stops .index r') : ts = us ∧ e = e' ∧ r = r' := by
  obtain ⟨t, ts, rfl, hread⟩ := d.reads endPos
  obtain ⟨t', us, rfl, hread'⟩ := d'.reads endPos
  exact split_of_gives_cons (operand endPos) h (hread r hr) (hread' r' hr')

theorem split_target {x x' : Ident (Token π)} (d : Derivation .target ts x)
    (d' : Derivation .target us x') (h : ts ++ r = us ++ r') : ts = us ∧ x = x' ∧ r = r' := by
  obtain ⟨t, ts, rfl, hread⟩ := d.reads endPos
  obtain ⟨t', us, rfl, hread'⟩ := d'.reads endPos
  obtain ⟨hts, hx, hr⟩ := split_of_gives_cons (operand endPos) h (hread r) (hread' r')
  exact ⟨hts, Expr.ident.inj hx, hr⟩

theorem split_block {b b' : Block (Token π)} (d : Derivation .block ts b)
    (d' : Derivation .block us b') (h : ts ++ r = us ++ r') : ts = us ∧ b = b' ∧ r = r' := by
  obtain ⟨o, ts, rfl, -, hread⟩ := d.reads endPos
  obtain ⟨o', us, rfl, -, hread'⟩ := d'.reads endPos
  exact split_of_gives_cons (block endPos) h (hread r) (hread' r')

/-- Arguments up to the token that closes them. -/
theorem split_exprList {es es' : List (Expr (Token π))} {c c' : Token π} {k : Kind}
    (hk : ClosesList k) (d : Derivation (.listOf (.expr .expression)) ts es)
    (d' : Derivation (.listOf (.expr .expression)) us es') (hc : c.kind = k) (hc' : c'.kind = k)
    (h : ts ++ c :: r = us ++ c' :: r') : ts = us ∧ es = es' ∧ c :: r = c' :: r' := by
  have hread : (exprList endPos k (ts ++ c :: r)).Gives es r := hc ▸ d.reads endPos c r (hc ▸ hk)
  have hread' : (exprList endPos k (us ++ c' :: r')).Gives es' r' :=
    hc' ▸ d'.reads endPos c' r' (hc' ▸ hk)
  rw [← h] at hread'
  obtain ⟨rfl, rfl⟩ := hread.unique hread'
  obtain ⟨rfl, rfl⟩ := append_cons_inj h
  exact ⟨rfl, rfl, rfl⟩

/-- Parameters up to the token that closes them. -/
theorem split_params {xs xs' : List (Ident (Token π))} {c c' : Token π}
    (d : Derivation (.listOf .name) ts xs) (d' : Derivation (.listOf .name) us xs')
    (hc : c.kind = .rightParen) (hc' : c'.kind = .rightParen)
    (h : ts ++ c :: r = us ++ c' :: r') : ts = us ∧ xs = xs' ∧ c :: r = c' :: r' := by
  have hread := d.reads endPos c r hc
  have hread' := d'.reads endPos c' r' hc'
  rw [← h] at hread'
  obtain ⟨rfl, rfl⟩ := hread.unique hread'
  obtain ⟨rfl, rfl⟩ := append_cons_inj h
  exact ⟨rfl, rfl, rfl⟩

theorem split_pair {kv kv' : Expr (Token π) × Expr (Token π)} (d : Derivation .pair ts kv)
    (d' : Derivation .pair us kv') (h : ts ++ r = us ++ r') (hr : Stops .lowest r)
    (hr' : Stops .lowest r') : ts = us ∧ kv = kv' ∧ r = r' := by
  cases d with
  | pair key ht value =>
      cases d' with
      | pair key' ht' value' =>
          simp only [List.append_assoc, List.cons_append] at h
          obtain ⟨rfl, rfl, htail⟩ := split_expression endPos key key' h
            (stops_close (by decide) (by decide) ht _) (stops_close (by decide) (by decide) ht' _)
          obtain ⟨rfl, hrest⟩ := List.cons.inj htail
          obtain ⟨rfl, rfl, rfl⟩ := split_expression endPos value value' hrest hr hr'
          exact ⟨rfl, rfl, rfl⟩

/-- A statement does not take in a semicolon behind it: behind two semicolons
its reading leaves one. -/
theorem no_semicolon {s s' : Stmt (Token π)} {t : Token π} (ht : t.kind = .semicolon)
    (d : Derivation .statement ts s) (d' : Derivation .statement (ts ++ [t]) s') : False := by
  have hstops : ∀ rest, Stops .lowest (t :: rest) := fun rest =>
    stops_close (by decide) (by decide) ht rest
  obtain ⟨u, ts, rfl, hread⟩ := d.reads endPos
  obtain ⟨u', us, heq, hread'⟩ := d'.reads endPos
  obtain ⟨rfl, htail⟩ := List.cons.inj heq
  have htail : ts ++ [t] = us := htail
  have h' := hread' [t] (hstops _)
  rw [← htail, List.append_assoc] at h'
  have hrest := ((hread [t, t] (hstops _)).unique h').2
  simp [skipSemicolon, ht] at hrest

omit endPos in
theorem skipSemicolon_eq_or (r : List (Token π)) :
    skipSemicolon r = r ∨ ∃ c, c.kind = .semicolon ∧ r = c :: skipSemicolon r := by
  cases r with
  | nil => exact .inl rfl
  | cons t r =>
      by_cases ht : t.kind = .semicolon
      · exact .inr ⟨t, ht, by simp [skipSemicolon, ht]⟩
      · exact .inl (by simp [skipSemicolon, ht])

theorem split_statement {s s' : Stmt (Token π)} (d : Derivation .statement ts s)
    (d' : Derivation .statement us s') (h : ts ++ r = us ++ r') (hr : Stops .lowest r)
    (hr' : Stops .lowest r') : ts = us ∧ s = s' ∧ r = r' := by
  have hskip : s = s' ∧ skipSemicolon r = skipSemicolon r' := by
    obtain ⟨t, ts, rfl, hread⟩ := d.reads endPos
    obtain ⟨t', us, rfl, hread'⟩ := d'.reads endPos
    obtain ⟨rfl, htail⟩ := List.cons.inj h
    have htail : ts ++ r = us ++ r' := htail
    have hread' := hread' r' hr'
    rw [← htail] at hread'
    exact (hread r hr).unique hread'
  obtain ⟨rfl, hskip⟩ := hskip
  -- The rests are the same unless just one of them begins with a semicolon.
  rcases skipSemicolon_eq_or r with heq | ⟨c, hc, heq⟩ <;>
    rcases skipSemicolon_eq_or r' with heq' | ⟨c', hc', heq'⟩
  · rw [heq, heq'] at hskip
    subst hskip
    exact ⟨List.append_cancel_right h, rfl, rfl⟩
  · rw [heq', ← hskip, heq] at h
    have hts : ts = us ++ [c'] := List.append_cancel_right (by simpa using h)
    exact (no_semicolon endPos hc' d' (hts ▸ d)).elim
  · rw [heq, hskip, heq'] at h
    have hus : ts ++ [c] = us := List.append_cancel_right (by simpa using h)
    exact (no_semicolon endPos hc d (hus ▸ d')).elim
  · rw [heq, heq', hskip] at h
    obtain ⟨rfl, rfl⟩ := append_cons_inj h
    exact ⟨rfl, rfl, by rw [heq, heq', hskip]⟩

end

end Grammar

end MonkeyLang
