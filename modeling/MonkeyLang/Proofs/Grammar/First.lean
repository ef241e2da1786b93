import MonkeyLang.Proofs.Grammar.Basic

/-!
# How derivations begin, and precedences by level

Which tokens the tokens of a derivation can begin with, and the precedences
that belong to the levels of the grammar.
-/

namespace MonkeyLang

namespace OperatorLevel

/-- The precedence of the operators of a level. -/
def precedence : OperatorLevel → Precedence
  | equality => .equals
  | comparison => .lessGreater
  | or => .or
  | xor => .xor
  | and => .and
  | sum => .sum
  | product => .product

end OperatorLevel

theorem BinaryOp.precedence_level (op : BinaryOp) : op.level.precedence = op.precedence := by
  cases op <;> rfl

theorem BinaryOp.precedence_le_unary (op : BinaryOp) : op.precedence ≤ .unary := by
  cases op <;> decide

@[simp]
theorem BinaryOp.ofKind?_kind (op : BinaryOp) :
    Continuation.ofKind? op.kind = some (.binary op) := by
  cases op <;> rfl

/-- An operator between two operands is written as one kind of token only. -/
theorem BinaryOp.kind_of_ofKind? {k : Kind} {op : BinaryOp}
    (h : Continuation.ofKind? k = some (.binary op)) : k = op.kind := by
  cases k <;> cases op <;> simp_all [Continuation.ofKind?, BinaryOp.kind]

theorem BinaryOp.kind_injective {op op' : BinaryOp} (h : op.kind = op'.kind) : op = op' := by
  have hc := congrArg Continuation.ofKind? h
  simpa using hc

theorem Continuation.kind_of_ofKind?_assign {k : Kind} (h : ofKind? k = some assign) :
    k = .equal := by
  cases k <;> simp_all [ofKind?]

theorem Continuation.kind_of_ofKind?_call {k : Kind} (h : ofKind? k = some call) :
    k = .leftParen := by
  cases k <;> simp_all [ofKind?]

theorem Continuation.kind_of_ofKind?_index {k : Kind} (h : ofKind? k = some index) :
    k = .leftBracket := by
  cases k <;> simp_all [ofKind?]

namespace Kind

/-- Whether a primary expression can begin with a token of this kind. -/
def startsPrimary (k : Kind) : Bool :=
  k.startsExpr && k != bang && k != minus

/-- Whether a statement can begin with a token of this kind. -/
def startsStmt (k : Kind) : Bool :=
  k.startsExpr || k == kwVar || k == kwVal || k == kwReturn

theorem startsStmt_of_startsExpr {k : Kind} (h : k.startsExpr = true) :
    k.startsStmt = true := by
  simp [startsStmt, h]

theorem startsExpr_of_startsPrimary {k : Kind} (h : k.startsPrimary = true) :
    k.startsExpr = true := by
  simp_all [startsPrimary]

/-- The tokens that can begin a statement and go on with an expression as
well. -/
theorem resumes_of_startsStmt {k : Kind} (hs : k.startsStmt = true)
    (hc : k.continuesExpr = true) : k = leftParen ∨ k = leftBracket ∨ k = minus := by
  cases k <;> simp_all [startsStmt, startsExpr, continuesExpr, Continuation.ofKind?]

end Kind

namespace Grammar

variable {π : Type}

/-- The kinds of token that the tokens of a symbol can begin with, if they have
to begin with one. -/
def starts? : Symbol π → Option (Kind → Bool)
  | .expr .conditional => some (· == .kwIf)
  | .expr .postfixed | .expr .primary => some Kind.startsPrimary
  | .expr _ | .pair => some Kind.startsExpr
  | .target => some fun k => k == .identifier || k == .leftParen
  | .name => some (· == .identifier)
  | .block => some (· == .leftBrace)
  | .statement => some Kind.startsStmt
  | .separated item => starts? item
  | .chain _ _ | .suffixes _ | .listOf _ | .alternative | .statements => none

/-- Whether tokens begin as those of a symbol have to. -/
def Begins (s : Symbol π) (ts : List (Token π)) : Prop :=
  ∀ starts ∈ starts? s, ∃ t r, ts = t :: r ∧ starts t.kind = true

theorem Begins.append {s : Symbol π} {ts : List (Token π)} (h : Begins s ts)
    (us : List (Token π)) : Begins s (ts ++ us) := by
  intro starts hs
  obtain ⟨t, r, rfl, ht⟩ := h starts hs
  exact ⟨t, r ++ us, rfl, ht⟩

/-- The tokens of a symbol begin as those of another one if everything that can
begin the one can begin the other. -/
theorem Begins.mono {s s' : Symbol π} {ts : List (Token π)} {starts starts' : Kind → Bool}
    (h : Begins s ts) (hs : starts? s = some starts) (hs' : starts? s' = some starts')
    (himp : ∀ k, starts k = true → starts' k = true) : Begins s' ts := by
  rintro _ hstarts
  obtain rfl := Option.some.inj (hs'.symm.trans hstarts)
  obtain ⟨t, r, rfl, ht⟩ := h starts hs
  exact ⟨t, r, rfl, himp _ ht⟩

theorem begins_cons {s : Symbol π} {starts : Kind → Bool} (hs : starts? s = some starts)
    {t : Token π} (ht : starts t.kind = true) (r : List (Token π)) : Begins s (t :: r) := by
  rintro _ hstarts
  obtain rfl := Option.some.inj (hs.symm.trans hstarts)
  exact ⟨t, r, rfl, ht⟩

theorem starts?_operandSymbol (l : OperatorLevel) :
    ∃ starts, starts? (.expr (operandSymbol l) : Symbol π) = some starts ∧
      ∀ k, starts k = true → k.startsExpr = true := by
  cases l <;> exact ⟨_, rfl, fun _ h => h⟩

/-- The tokens of a derivation begin as those of its symbol have to. -/
theorem Derivation.begins {s : Symbol π} {ts : List (Token π)} {e : s.Tree}
    (d : Derivation s ts e) : Begins s ts := by
  induction d with
  | postfixed _ _ ih | more _ _ _ ih => exact ih.append _
  | one _ ih => exact ih
  | assign _ _ _ ih =>
      refine (ih.append _).mono rfl rfl fun k hk => ?_
      cases k <;> revert hk <;> decide
  | @level l _ _ _ _ _ _ ih =>
      obtain ⟨starts, hs, himp⟩ := starts?_operandSymbol (π := π) l
      exact (ih.append _).mono hs rfl himp
  | operation _ ih => exact ih.mono rfl rfl fun _ h => h
  | pair _ _ _ ih => exact (ih.append _).mono rfl rfl fun _ h => h
  | unaryEnd _ ih => exact ih.mono rfl rfl fun _ => Kind.startsExpr_of_startsPrimary
  | choice _ ih =>
      refine ih.mono rfl rfl fun k hk => ?_
      rw [eq_of_beq hk]
      rfl
  | @unaryStep _ _ op _ ht => exact begins_cons rfl (by rw [ht]; cases op <;> rfl) _
  | ident ht | int ht | str ht | yes ht | no ht | group ht | loop ht | func ht | array ht
  | hash ht | conditional ht | targetName ht | targetGroup ht | name ht | block ht
  | ret ht => exact begins_cons rfl (by rw [ht]; rfl) _
  | @declare _ _ _ _ kind _ ht => exact begins_cons rfl (by rw [ht]; cases kind <;> rfl) _
  | expr _ ih => exact ih.mono rfl rfl fun _ => Kind.startsStmt_of_startsExpr
  | chainEnd | chainStep | suffixEnd | callStep | indexStep | noElse | elseBlock | elseIf
  | empty | items | noStatements | ended | unended => rintro _ ⟨⟩

/-- The first token of a derivation whose symbol has to begin with certain
tokens. -/
theorem Derivation.first {s : Symbol π} {ts : List (Token π)} {e : s.Tree}
    {starts : Kind → Bool} (d : Derivation s ts e) (hs : starts? s = some starts) :
    ∃ t r, ts = t :: r ∧ starts t.kind = true :=
  d.begins starts hs

/-- Statements begin with a token that begins a statement. -/
theorem Derivation.statements_begin {ts : List (Token π)} {ss : List (Stmt (Token π))}
    (d : Derivation .statements ts ss) : ∀ t ∈ ts.head?, t.kind.startsStmt = true := by
  intro u hu
  cases d with
  | noStatements => simp at hu
  | ended first | unended first =>
      obtain ⟨t, r, rfl, ht⟩ := first.first rfl
      obtain rfl : t = u := by simpa using hu
      exact ht

end Grammar

end MonkeyLang
