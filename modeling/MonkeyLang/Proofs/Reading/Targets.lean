import MonkeyLang.Proofs.Reading.Climbing
import MonkeyLang.Proofs.Reading.Recovery

/-!
# Assignments to what is no name

Only a name can be assigned to.  Where something else stands before the equals sign, the right
side is read all the same and is dropped, so that it is not taken for a statement.  Nothing that
comes before or behind is lost.

But the semicolon behind the right side is not passed over with it.  The expression is read
without a result, and so its statement is given up before a semicolon is looked for.  The next
statement is then begun at the semicolon, and as no expression begins there, this is another
error.
-/

namespace MonkeyLang

open Grammar Reading

variable {π : Type}

/-- An assignment to an expression that is no name, with or without parentheses, and no
assignment. -/
structure MisdirectedAssignment (π : Type) where
  left : List (Token π)
  target : Expr (Token π)
  sign : Token π
  right : List (Token π)
  value : Expr (Token π)
  target_derived : Derived (.expr (.level .equality)) left target
  no_name : ∀ x, ¬Derived .target left x
  sign_kind : sign.kind = .equal
  value_derived : Derived (.expr .expression) right value

namespace MisdirectedAssignment

def tokens (m : MisdirectedAssignment π) : List (Token π) :=
  m.left ++ m.sign :: m.right

/-- The error at the equals sign. -/
def error (m : MisdirectedAssignment π) : ParseError π :=
  ⟨.notAssignable m.target.render, m.sign.pos⟩

end MisdirectedAssignment

/-! ## Statements and semicolons -/

namespace Reading

variable {endPos : π}

/-- No statement begins with a semicolon. -/
theorem statement_semicolon {stop : Token π} (hstop : stop.kind = .semicolon)
    (r : List (Token π)) :
    (statement endPos stop r).Reports none r [⟨.noOperand .semicolon, stop.pos⟩] := by
  have hoperand : (operand endPos stop r).Reports none r [⟨.noOperand .semicolon, stop.pos⟩] := by
    rw [operand]
    simp only [hstop]
    exact ⟨rfl, rfl, rfl⟩
  rw [statement_eq_expr (by simp [hstop]) (by simp [hstop]) (by simp [hstop]), expr]
  exact (hoperand.andThen_none _).andThen_none _

/-- Statements up to a semicolon are read as they are, whatever comes behind them. -/
theorem statements_upToSemicolon {ps rest : List (Token π)} {ss : List (Stmt (Token π))}
    (h : UpToSemicolon ps ss) :
    statements endPos (ps ++ rest) =
      (ss ++ (statements endPos rest).1, (statements endPos rest).2) := by
  induction h with
  | nil => rfl
  | @ended ts us stop s ss first ht _ ih =>
      obtain ⟨t, r, rfl, hread⟩ := first.reads endPos
      have hgives := hread (stop :: us ++ rest) (stops_close (by decide) (by decide) ht _)
      rw [List.cons_append, skipSemicolon, if_pos ht] at hgives
      rw [List.append_assoc, List.cons_append, List.cons_append,
        statements_of_reports hgives.reports, ih]
      rfl
  | @unended ts us u s ss first more hmore _ ih =>
      obtain ⟨t, r, rfl, hread⟩ := first.reads endPos
      have hstops := statements_stop more hmore
      have hgives := hread (u :: us ++ rest) (fun v hv => hstops v hv)
      rw [List.cons_append, skipSemicolon_statements more] at hgives
      rw [List.append_assoc, List.cons_append, List.cons_append,
        statements_of_reports hgives.reports, ← List.cons_append, ih]
      rfl

/-! ## What is read of the assignment -/

/-- The right side behind what cannot be assigned to is read and dropped. -/
theorem extend_misdirected {target : Expr (Token π)} (htarget : ∀ x, target ≠ .ident x)
    {value : Expr (Token π)} {t : Token π} {r rest : List (Token π)}
    (hvalue : (expr endPos .lowest r).Gives value rest) :
    (extend endPos target .assign t r).Reports none rest
      [⟨.notAssignable target.render, t.pos⟩] := by
  rw [extend]
  · exact ⟨rfl, hvalue.rest, congrArg (_ :: ·) hvalue.errors⟩
  · exact htarget

end Reading

namespace MisdirectedAssignment

variable (m : MisdirectedAssignment π) (endPos : π)

theorem target_ne_ident (x : Ident (Token π)) : m.target ≠ .ident x := by
  intro htarget
  have hderived := m.target_derived
  rw [htarget] at hderived
  exact m.no_name x hderived.target

/-- The target is read above assignments, and then the assignment is met. -/
theorem expr_reports {rest : List (Token π)} (hrest : Stops .lowest rest) :
    (Reading.expr endPos .lowest (m.tokens ++ rest)).Reports none rest [m.error] := by
  obtain ⟨dtarget⟩ := m.target_derived
  obtain ⟨dvalue⟩ := m.value_derived
  have hsign : Continuation.ofKind? m.sign.kind = some .assign := by
    rw [m.sign_kind]
    rfl
  have hstops : Stops .assign (m.sign :: (m.right ++ rest)) :=
    stops_cons (by simp [m.sign_kind]) (by rw [m.sign_kind]; decide)
  have htarget : (Reading.expr endPos .assign (m.left ++ m.sign :: (m.right ++ rest))).Gives
      m.target (m.sign :: (m.right ++ rest)) :=
    dtarget.reads endPos .assign _ (by decide) (hstops.mono (by decide)) _ _
      (climb_gives hstops m.target)
  have hextend := extend_misdirected m.target_ne_ident (t := m.sign)
    (dvalue.reads endPos rest hrest)
  rw [tokens, List.append_assoc, List.cons_append,
    expr_eq_andThen endPos (p := .lowest) (q := .assign) (by decide)]
  refine htarget.reports.andThen _ fun hr => ?_
  rw [climb_eq_extend endPos hsign (by decide)]
  exact (hextend.andThen_none _).weaken _

theorem reports {rest : List (Token π)} (hrest : Stops .lowest rest) :
    ∃ t r, m.tokens = t :: r ∧
      (Reading.statement endPos t (r ++ rest)).Reports none rest [m.error] := by
  obtain ⟨d⟩ := m.target_derived
  obtain ⟨t, r, hleft, ht⟩ := d.first rfl
  have hne {k : Kind} (hk : k.startsExpr = false) : t.kind ≠ k := by
    rintro rfl
    rw [hk] at ht
    cases ht
  have hread := m.expr_reports endPos hrest
  refine ⟨t, r ++ m.sign :: m.right, by rw [tokens, hleft]; rfl, ?_⟩
  rw [tokens, hleft] at hread
  rw [statement_eq_expr (hne rfl) (hne rfl) (hne rfl)]
  exact hread.andThen_none _

end MisdirectedAssignment

/-- Between statements that end with a semicolon and any others, an assignment to what is no name
costs one error at its equals sign, and all statements are built.  But a semicolon behind it costs
another error; without one there is none. -/
theorem misdirected_leave_semicolon (m : MisdirectedAssignment π) {ps qs : List (Token π)}
    {ss ss' : List (Stmt (Token π))} (hps : Derived .statements ps ss)
    (hlast : ∀ t ∈ ps.getLast?, t.kind = .semicolon) (hqs : Derived .statements qs ss')
    (endPos : π) :
    (∀ stop : Token π, stop.kind = .semicolon →
      parseTokens endPos (ps ++ (m.tokens ++ stop :: qs)) =
        ⟨⟨ss ++ ss'⟩, [m.error, ⟨.noOperand .semicolon, stop.pos⟩]⟩) ∧
    (¬Resumes qs → parseTokens endPos (ps ++ (m.tokens ++ qs)) = ⟨⟨ss ++ ss'⟩, [m.error]⟩) := by
  obtain ⟨dps⟩ := hps
  obtain ⟨dqs⟩ := hqs
  have hended := dps.upToSemicolon hlast
  have hothers := (statements_eq_iff endPos qs ss').mpr ⟨dqs⟩
  constructor
  · intro stop hstop
    obtain ⟨t, r, htokens, hread⟩ :=
      m.reports endPos (stops_close (by decide) (by decide) hstop qs)
    rw [parseTokens, statements_upToSemicolon hended, htokens, List.cons_append,
      statements_of_reports hread, statements_of_reports (statement_semicolon hstop qs), hothers]
    rfl
  · intro hqs
    obtain ⟨t, r, htokens, hread⟩ := m.reports endPos (statements_stop dqs hqs)
    rw [parseTokens, statements_upToSemicolon hended, htokens, List.cons_append,
      statements_of_reports hread, hothers]
    rfl

/-! ## Assignments to a negation and to a number -/

theorem derived_name {t : Token π} (ht : t.kind = .identifier) {y : ExprSymbol}
    (hy : y.rank ≤ ExprSymbol.primary.rank) : Derived (.expr y) [t] (.ident (identOf t)) :=
  (Derivation.ident ht).derived.loosen hy

theorem derived_number {t : Token π} {n : Int64} (ht : t.kind = .integer)
    (hn : integer? t.literal = some n) {y : ExprSymbol}
    (hy : y.rank ≤ ExprSymbol.primary.rank) : Derived (.expr y) [t] (.int t n) :=
  (Derivation.int ht hn).derived.loosen hy

theorem derived_nameStatement {t stop : Token π} (ht : t.kind = .identifier)
    (hstop : stop.kind = .semicolon) :
    Derived .statements [t, stop] [.expr t (.ident (identOf t))] := by
  obtain ⟨d⟩ := derived_name ht (y := .expression) (by decide)
  exact ⟨.ended (.expr d) hstop .noStatements⟩

/-- The tokens of `-a = b = 1`, with their numbers in `x; -a = b = 1; c;` for places. -/
def negationTarget : MisdirectedAssignment Nat where
  left := [⟨.minus, "-", 3⟩, ⟨.identifier, "a", 4⟩]
  target := .unary ⟨.minus, "-", 3⟩ .negate (.ident ⟨⟨.identifier, "a", 4⟩, "a"⟩)
  sign := ⟨.equal, "=", 5⟩
  right := [⟨.identifier, "b", 6⟩, ⟨.equal, "=", 7⟩, ⟨.integer, "1", 8⟩]
  value := .assign ⟨.equal, "=", 7⟩ ⟨⟨.identifier, "b", 6⟩, "b"⟩ (.int ⟨.integer, "1", 8⟩ 1)
  target_derived := by
    obtain ⟨d⟩ := derived_name (t := (⟨.identifier, "a", 4⟩ : Token Nat)) rfl (y := .unary)
      (by decide)
    have dunary : Derivation (.expr .unary) [⟨.minus, "-", 3⟩, ⟨.identifier, "a", 4⟩]
        (.unary _ .negate _) := .unaryStep rfl d
    exact dunary.derived.loosen (by decide)
  no_name := by
    rintro x ⟨d⟩
    obtain ⟨t, r, hleft, ht⟩ := d.first rfl
    obtain ⟨rfl, -⟩ := List.cons.inj hleft
    exact absurd ht (by decide)
  sign_kind := rfl
  value_derived := by
    obtain ⟨d⟩ := derived_number (t := (⟨.integer, "1", 8⟩ : Token Nat)) (n := 1) rfl
      (by decide) (y := .expression) (by decide)
    exact ⟨.assign (.targetName rfl) rfl d⟩

/-- The statement before the negation. -/
def statementBefore : List (Token Nat) :=
  [⟨.identifier, "x", 1⟩, ⟨.semicolon, ";", 2⟩]

/-- The statement behind it. -/
def statementBehind : List (Token Nat) :=
  [⟨.identifier, "c", 10⟩, ⟨.semicolon, ";", 11⟩]

/-- The statements before and behind are read, and the semicolon between them costs an error if it
is there. -/
theorem negationTarget_leaves_semicolon :
    bareTokens "x; -a = b = 1; c;".toList =
      (statementBefore ++ (negationTarget.tokens ++ ⟨.semicolon, ";", 9⟩ :: statementBehind)).map
        (Token.map fun _ => ()) ∧
    (parseTokens 12 (statementBefore ++
        (negationTarget.tokens ++ ⟨.semicolon, ";", 9⟩ :: statementBehind))).errors =
      [⟨.notAssignable "(-a)", 5⟩, ⟨.noOperand .semicolon, 9⟩] ∧
    (parseTokens 12 (statementBefore ++ (negationTarget.tokens ++
        ⟨.semicolon, ";", 9⟩ :: statementBehind))).program.statements.map Stmt.render =
      ["x", "c"] ∧
    (parseTokens 12 (statementBefore ++ (negationTarget.tokens ++ statementBehind))).errors =
      [⟨.notAssignable "(-a)", 5⟩] := by
  have hbefore : Derived .statements statementBefore _ := derived_nameStatement rfl rfl
  have hbehind : Derived .statements statementBehind _ := derived_nameStatement rfl rfl
  have hlast : ∀ t ∈ statementBefore.getLast?, t.kind = .semicolon := by
    rintro t ⟨⟩
    rfl
  have hnew : ¬Resumes statementBehind := by
    rintro ⟨t, ⟨⟩, hk⟩
    exact absurd hk (by decide)
  obtain ⟨hstop, hnone⟩ :=
    misdirected_leave_semicolon negationTarget hbefore hlast hbehind 12
  refine ⟨by decide +kernel, ?_, ?_, ?_⟩
  · rw [hstop _ rfl]
    rfl
  · rw [hstop _ rfl]
    rfl
  · rw [hnone hnew]
    rfl

/-- The tokens of `1 = 2` at the beginning of a text. -/
def numberTarget : MisdirectedAssignment Position where
  left := [⟨.integer, "1", ⟨1, 1, 0, 1⟩⟩]
  target := .int ⟨.integer, "1", ⟨1, 1, 0, 1⟩⟩ 1
  sign := ⟨.equal, "=", ⟨1, 3, 2, 3⟩⟩
  right := [⟨.integer, "2", ⟨1, 5, 4, 5⟩⟩]
  value := .int ⟨.integer, "2", ⟨1, 5, 4, 5⟩⟩ 2
  target_derived := derived_number rfl (by decide) (by decide)
  no_name := by
    rintro x ⟨d⟩
    obtain ⟨t, r, hleft, ht⟩ := d.first rfl
    obtain ⟨rfl, -⟩ := List.cons.inj hleft
    exact absurd ht (by decide)
  sign_kind := rfl
  value_derived := derived_number rfl (by decide) (by decide)

/-- With the semicolon behind it, `1 = 2` costs more than the error at its equals sign. -/
theorem numberTarget_costs_more :
    tokens "1 = 2;" = numberTarget.tokens ++ [⟨.semicolon, ";", ⟨1, 6, 5, 6⟩⟩] ∧
    (parseText "1 = 2;").errors =
      [numberTarget.error, ⟨.noOperand .semicolon, ⟨1, 6, 5, 6⟩⟩] ∧
    (parseText "1 = 2;").errors ≠ [numberTarget.error] := by
  have herrors : (parseText "1 = 2;").errors =
      [numberTarget.error, ⟨.noOperand .semicolon, ⟨1, 6, 5, 6⟩⟩] := by decide +kernel
  refine ⟨by decide +kernel, herrors, ?_⟩
  rw [herrors]
  decide

end MonkeyLang
