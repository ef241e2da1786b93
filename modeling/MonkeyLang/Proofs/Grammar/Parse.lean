import MonkeyLang.Proofs.Grammar.Sound
import MonkeyLang.Proofs.Grammar.Unique

/-!
# What is parsed is what the grammar derives

A list of tokens is read as statements without errors if and only if the
grammar derives the statements from it.
-/

namespace MonkeyLang

open Grammar Reading

variable {π : Type}

theorem statements_eq_iff (endPos : π) (ts : List (Token π)) (ss : List (Stmt (Token π))) :
    statements endPos ts = (ss, []) ↔ Derived .statements ts ss := by
  constructor
  · exact statements_sound
  · rintro ⟨d⟩
    exact (d.reads endPos).2

theorem parse_eq_ok_iff (source : String) (p : Program (Token Position)) :
    parse source = .ok p ↔
      statements (endToken source).pos (tokens source) = (p.statements, []) := by
  obtain ⟨ss⟩ := p
  rw [parse, parseText, parseTokens]
  generalize statements (endToken source).pos (tokens source) = read
  obtain ⟨ss', errors⟩ := read
  cases errors <;> simp

/-- A text is a program exactly if its tokens are derived as the statements of
the program; and there is at most one derivation of statements from them. -/
theorem parse_iff_derivation (source : String) :
    (∀ p : Program (Token Position),
      parse source = .ok p ↔ Nonempty (Derivation .statements (tokens source) p.statements)) ∧
    Subsingleton (Σ ss, Derivation .statements (tokens source) ss) := by
  refine ⟨fun p => ?_, Derivation.statements_subsingleton (endToken source).pos _⟩
  rw [parse_eq_ok_iff]
  exact statements_eq_iff _ _ _

end MonkeyLang
