import MonkeyLang.Proofs.Grammar.First

/-!
# Changing derivations

An expression of one symbol is an expression of every looser symbol.  A chain
of operators, or of suffixes, can be made longer at its end.  An expression
that stands for a name can be assigned to.
-/

namespace MonkeyLang

namespace Grammar

variable {π : Type}

/-- Whether a symbol has a derivation of a tree over some tokens. -/
def Derived (s : Symbol π) (ts : List (Token π)) (e : s.Tree) : Prop :=
  Nonempty (Derivation s ts e)

theorem Derivation.derived {s : Symbol π} {ts : List (Token π)} {e : s.Tree}
    (d : Derivation s ts e) : Derived s ts e :=
  ⟨d⟩

namespace ExprSymbol

/-- How tightly the expressions of a symbol hold together: a continuation that
binds tighter would have become a part of them. -/
def rank : ExprSymbol → Nat
  | expression => Precedence.lowest.rank
  | level l => l.precedence.rank
  | unary => Precedence.unary.rank
  | postfixed => Precedence.index.rank
  | primary => Precedence.index.rank + 1
  | conditional => Precedence.index.rank + 2

/-- The symbol before a symbol. -/
def looser : ExprSymbol → ExprSymbol
  | expression | level .equality => expression
  | level .comparison => level .equality
  | level .or => level .comparison
  | level .xor => level .or
  | level .and => level .xor
  | level .sum => level .and
  | level .product => level .sum
  | unary => level .product
  | postfixed => unary
  | primary => postfixed
  | conditional => primary

/-- The symbol of the expressions whose operators all bind tighter than a
precedence. -/
def above : Precedence → ExprSymbol
  | .lowest => expression
  | .assign => level .equality
  | .equals => level .comparison
  | .lessGreater => level .or
  | .or => level .xor
  | .xor => level .and
  | .and => level .sum
  | .sum => level .product
  | .product | .unary => unary
  | .call | .index => postfixed

theorem rank_injective {x y : ExprSymbol} (h : x.rank = y.rank) : x = y := by
  rcases x with _ | (_ | _) <;> rcases y with _ | (_ | _) <;> first | rfl | cases h

/-- There is no symbol between a symbol and the one before it. -/
theorem rank_le_looser {x y : ExprSymbol} (h : y.rank < x.rank) : y.rank ≤ x.looser.rank := by
  rcases x with _ | (_ | _) <;> rcases y with _ | (_ | _) <;> revert h <;> decide

theorem looser_rank_lt {x y : ExprSymbol} (h : y.rank < x.rank) : x.looser.rank < x.rank := by
  rcases x with _ | (_ | _)
  · exact absurd h (Nat.not_lt_zero _)
  all_goals decide

/-- A level is read above every precedence that is looser than its own. -/
theorem above_rank_le {p : Precedence} {l : OperatorLevel} (h : p < l.precedence) :
    (above p).rank ≤ (level l).rank := by
  cases p <;> cases l <;> revert h <;> decide

theorem above_rank_le_unary {p : Precedence} (h : p ≤ .unary) :
    (above p).rank ≤ unary.rank := by
  cases p <;> revert h <;> decide

/-- The right operands of an operator are read above its precedence. -/
theorem above_precedence (op : BinaryOp) : above op.precedence = operandSymbol op.level := by
  cases op <;> rfl

end ExprSymbol

open ExprSymbol

/-! ## Loosening -/

theorem Derived.looser {x : ExprSymbol} {ts : List (Token π)} {e : Expr (Token π)}
    (h : Derived (.expr x) ts e) : Derived (.expr x.looser) ts e := by
  obtain ⟨d⟩ := h
  have ofOperand : ∀ (l : OperatorLevel), Derivation (.expr (operandSymbol l)) ts e →
      Derived (.expr (.level l)) ts e := fun l d => by
    have d' := d.level .chainEnd
    rw [List.append_nil] at d'
    exact d'.derived
  cases x with
  | expression => exact d.derived
  | level l =>
      cases l with
      | equality => exact d.operation.derived
      | comparison => exact ofOperand .equality d
      | or => exact ofOperand .comparison d
      | xor => exact ofOperand .or d
      | and => exact ofOperand .xor d
      | sum => exact ofOperand .and d
      | product => exact ofOperand .sum d
  | unary => exact ofOperand .product d
  | postfixed => exact d.unaryEnd.derived
  | primary =>
      have d' := d.postfixed .suffixEnd
      rw [List.append_nil] at d'
      exact d'.derived
  | conditional => exact d.choice.derived

/-- An expression of a symbol is one of every looser symbol. -/
theorem Derived.loosen {x y : ExprSymbol} {ts : List (Token π)} {e : Expr (Token π)}
    (h : Derived (.expr x) ts e) (hrank : y.rank ≤ x.rank) : Derived (.expr y) ts e := by
  induction hn : x.rank using Nat.strongRecOn generalizing x with
  | ind n ih =>
      rcases Nat.lt_or_eq_of_le hrank with hlt | heq
      · exact ih _ (hn ▸ looser_rank_lt hlt) h.looser (rank_le_looser hlt) rfl
      · exact rank_injective heq ▸ h

/-- What a call or an index can stand behind is a postfixed expression. -/
theorem Derived.postfixed_of_call_le {x : ExprSymbol} {ts : List (Token π)}
    {e : Expr (Token π)} (h : Derived (.expr x) ts e) (hrank : Precedence.call.rank ≤ x.rank) :
    Derived (.expr .postfixed) ts e := by
  refine h.loosen ?_
  rcases x with _ | (_ | _) <;> revert hrank <;> decide

/-! ## Chains and suffixes, put together -/

/-- A chain goes on with a chain, and suffixes with suffixes. -/
def GoesOn : (s : Symbol π) → List (Token π) → s.Tree → Prop
  | .chain l left, ts, e =>
    ∀ us e', Derivation (.chain l e) us e' → Derived (.chain l left) (ts ++ us) e'
  | .suffixes left, ts, e =>
    ∀ us e', Derivation (.suffixes e) us e' → Derived (.suffixes left) (ts ++ us) e'
  | _, _, _ => True

theorem Derivation.goesOn {s : Symbol π} {ts : List (Token π)} {e : s.Tree}
    (d : Derivation s ts e) : GoesOn s ts e := by
  induction d with
  | chainEnd | suffixEnd => exact fun _ _ d => d.derived
  | chainStep ht hl operand _ _ ih =>
      intro us e' d
      obtain ⟨d'⟩ := ih us e' d
      rw [List.cons_append, List.append_assoc]
      exact (Derivation.chainStep ht hl operand d').derived
  | callStep ho args hc _ _ ih =>
      intro us e' d
      obtain ⟨d'⟩ := ih us e' d
      rw [List.cons_append, List.append_assoc, List.cons_append]
      exact (Derivation.callStep ho args hc d').derived
  | indexStep ho index hc _ _ ih =>
      intro us e' d
      obtain ⟨d'⟩ := ih us e' d
      rw [List.cons_append, List.append_assoc, List.cons_append]
      exact (Derivation.indexStep ho index hc d').derived
  | _ => trivial

/-- An expression of a level goes on with a chain of it. -/
theorem Derived.level_append {l : OperatorLevel} {ts us : List (Token π)}
    {left e : Expr (Token π)} (h : Derived (.expr (.level l)) ts left)
    (more : Derivation (.chain l left) us e) : Derived (.expr (.level l)) (ts ++ us) e := by
  obtain ⟨d⟩ := h
  cases d with
  | level first chain =>
      obtain ⟨chain'⟩ := chain.goesOn us e more
      rw [List.append_assoc]
      exact (first.level chain').derived

/-- A postfixed expression goes on with suffixes. -/
theorem Derived.postfixed_append {ts us : List (Token π)} {left e : Expr (Token π)}
    (h : Derived (.expr .postfixed) ts left) (more : Derivation (.suffixes left) us e) :
    Derived (.expr .postfixed) (ts ++ us) e := by
  obtain ⟨d⟩ := h
  cases d with
  | postfixed first suffixes =>
      obtain ⟨suffixes'⟩ := suffixes.goesOn us e more
      rw [List.append_assoc]
      exact (first.postfixed suffixes').derived

/-! ## Names -/

/-- What is known of a derivation of a name: it derives a target, or adds
nothing to what it goes on from. -/
def NamesTarget : (s : Symbol π) → List (Token π) → s.Tree → Prop
  | .expr _, ts, e => ∀ x, e = .ident x → Derived .target ts x
  | .chain _ left, ts, e | .suffixes left, ts, e => ∀ x, e = .ident x → ts = [] ∧ left = e
  | _, _, _ => True

theorem Derivation.namesTarget {s : Symbol π} {ts : List (Token π)} {e : s.Tree}
    (d : Derivation s ts e) : NamesTarget s ts e := by
  induction d with
  | level _ _ ihFirst ihMore | postfixed _ _ ihFirst ihMore =>
      rintro x rfl
      obtain ⟨rfl, rfl⟩ := ihMore x rfl
      rw [List.append_nil]
      exact ihFirst x rfl
  | operation _ ih | unaryEnd _ ih | choice _ ih => exact ih
  | chainEnd | suffixEnd => exact fun _ _ => ⟨rfl, rfl⟩
  | chainStep _ _ _ _ _ ih | callStep _ _ _ _ _ ih | indexStep _ _ _ _ _ ih =>
      rintro x rfl
      exact absurd (ih x rfl).2 (by simp)
  | ident ht =>
      intro x hx
      cases hx
      exact (Derivation.targetName ht).derived
  | group ho _ hc ih =>
      intro x hx
      obtain ⟨d⟩ := ih x hx
      exact (d.targetGroup ho hc).derived
  | assign | unaryStep | int | str | yes | no | loop | func | array | hash | conditional =>
      intro x hx
      cases hx
  | _ => trivial

/-- An expression that stands for a name can be assigned to. -/
theorem Derived.target {x : ExprSymbol} {ts : List (Token π)} {id : Ident (Token π)}
    (h : Derived (.expr x) ts (.ident id)) : Derived .target ts id := by
  obtain ⟨d⟩ := h
  exact d.namesTarget id rfl

end Grammar

end MonkeyLang
