import Mathlib.Logic.Relation
import MonkeyLang.Proofs.Reading.Climbing
import MonkeyLang.Proofs.Reading.Progress

/-!
# The left spine of an expression

An expression grows to the left: whenever it is extended, it becomes the left part of what comes
of it.  So what is read above a tighter precedence is found again in what is read above a looser
one, by going from left part to left part; and reading above the looser precedence has taken the
same tokens first.

An expression ends before a token that does not bind tighter than asked for.
-/

namespace MonkeyLang

/-- What stands before the operator, the equals sign or the bracket of an expression. -/
def Expr.left? {α : Type} : Expr α → Option (Expr α)
  | .binary _ _ l _ => some l
  | .assign _ x _ => some (.ident x)
  | .call _ e _ => some e
  | .index _ l _ => some l
  | _ => none

/-- An expression stands on the left spine of another if it comes from it by taking the left part
any number of times. -/
def Expr.OnLeftSpine {α : Type} : Expr α → Expr α → Prop :=
  Relation.ReflTransGen fun l e => e.left? = some l

namespace Reading

variable {π : Type} {endPos : π} {p q : Precedence}

/-- The kind of the token that comes next, which is the end behind all others. -/
def lookahead : List (Token π) → Kind
  | [] => .eof
  | t :: _ => t.kind

theorem lookahead_le {ts : List (Token π)} (h : ∀ t ∈ ts.head?, ¬p < t.kind.precedence) :
    (lookahead ts).precedence ≤ p := by
  cases ts with
  | nil => exact Nat.zero_le _
  | cons t r => exact Nat.le_of_not_lt (h t rfl)

/-- What an expression is extended to has it for its left part. -/
theorem left?_of_extend {left e : Expr (Token π)} {c : Continuation} {t : Token π}
    {r rest : List (Token π)} (h : (extend endPos left c t r).Yields e rest) :
    e.left? = some left := by
  have hresult := h.result
  cases c with
  | binary op =>
      rw [extend] at hresult
      obtain ⟨right, -, rfl⟩ := Option.map_eq_some_iff.mp hresult
      rfl
  | assign =>
      by_cases hname : ∃ x, left = .ident x
      · obtain ⟨x, rfl⟩ := hname
        rw [extend] at hresult
        obtain ⟨value, -, rfl⟩ := Option.map_eq_some_iff.mp hresult
        rfl
      · rw [extend] at hresult
        · cases hresult
        · exact fun x hx => hname ⟨x, hx⟩
  | call =>
      rw [extend] at hresult
      obtain ⟨args, -, rfl⟩ := Option.map_eq_some_iff.mp hresult
      rfl
  | index =>
      rw [extend] at h
      obtain ⟨i, r', hr', -, hclose⟩ := h.of_andThen
      obtain ⟨bracket, -, rfl⟩ := Option.map_eq_some_iff.mp hclose.result
      rfl

/-- Climbing leaves an expression on the left spine, and ends before what does not bind tighter. -/
theorem climb_yields {left e : Expr (Token π)} {ts rest : List (Token π)}
    (h : (climb endPos p left ts).Yields e rest) :
    left.OnLeftSpine e ∧ (lookahead rest).precedence ≤ p := by
  induction ts using length_induction generalizing left with
  | step ts ih =>
      rcases stops_or_continues p ts with hstop | ⟨t, r, c, rfl, hc, hp⟩
      · rw [climb_eq_ok endPos hstop] at h
        obtain ⟨hresult, rfl⟩ := h
        obtain rfl := Option.some.inj hresult
        exact ⟨Relation.ReflTransGen.refl, lookahead_le hstop⟩
      · rw [climb_eq_extend endPos hc hp] at h
        obtain ⟨left', r', hr', hextend, hclimb⟩ := h.of_andThen
        obtain ⟨hspine, hahead⟩ := ih r' (Nat.lt_succ_of_le hr') ⟨hclimb.result, hclimb.rest⟩
        exact ⟨Relation.ReflTransGen.head (left?_of_extend hextend) hspine, hahead⟩

/-- An expression that is read above a precedence has, on its left spine, what is read above a
tighter one from the same tokens. -/
theorem expr_yields (endPos : π) (hpq : p ≤ q) {e : Expr (Token π)} {ts rest : List (Token π)}
    (h : (expr endPos p ts).Yields e rest) :
    (lookahead rest).precedence ≤ p ∧
      ∃ l, (expr endPos q ts).result = some l ∧ l.OnLeftSpine e := by
  rw [expr_eq_andThen endPos hpq] at h
  obtain ⟨l, r, hr, hl, hclimb⟩ := h.of_andThen
  obtain ⟨hspine, hahead⟩ := climb_yields ⟨hclimb.result, hclimb.rest⟩
  exact ⟨hahead, l, hl.result, hspine⟩

/-- The looser the precedence, the more tokens are taken and the more errors are found. -/
theorem expr_takes_more (endPos : π) (hpq : p ≤ q) (ts : List (Token π)) :
    (expr endPos p ts).rest <:+ (expr endPos q ts).rest ∧
      (expr endPos q ts).errors <+: (expr endPos p ts).errors := by
  rw [expr_eq_andThen endPos hpq]
  obtain ⟨result, rest, errors, hle⟩ := expr endPos q ts
  cases result with
  | none => exact ⟨List.suffix_refl _, List.prefix_refl _⟩
  | some l => exact ⟨Call.rest_suffix endPos (.climb p l rest), List.prefix_append _ _⟩

end Reading

open Reading

/-- From any tokens, reading an expression above a precedence is reading one above a tighter
precedence and, if that has a result, extending it as long as what follows binds tighter than the
looser one: the result, the errors and the tokens left are the same.

An expression is read up to a token that does not bind tighter than asked for.  And above the
tighter precedence some of the same tokens are taken, and what is built of them stands on the left
spine of what is built above the looser one. -/
theorem levels_factor {π : Type} (endPos : π) {p q : Precedence} (hpq : p ≤ q)
    (ts : List (Token π)) :
    expr endPos p ts =
      (expr endPos q ts).andThen (Nat.le_refl _) (fun left rest hr =>
        (climb endPos p left rest).weaken hr) ∧
    (∀ e, (expr endPos p ts).result = some e →
      (lookahead (expr endPos p ts).rest).precedence ≤ p ∧
      ∃ l, (expr endPos q ts).result = some l ∧ l.OnLeftSpine e) ∧
    (expr endPos p ts).rest <:+ (expr endPos q ts).rest ∧
    (expr endPos q ts).rest <:+ ts ∧
    (expr endPos q ts).errors <+: (expr endPos p ts).errors := by
  obtain ⟨hrest, herrors⟩ := expr_takes_more endPos hpq ts
  refine ⟨expr_eq_andThen endPos hpq ts, ?_, hrest, Call.rest_suffix endPos (.expr q ts), herrors⟩
  intro e he
  exact expr_yields endPos hpq ⟨he, rfl⟩

/-- An expression with operators of several precedences, and another behind a semicolon. -/
def mixedText : String :=
  "-a(b)[0] * c + d == e; f"

/-- Above the precedence of sums the product is read, and it stands on the left spine of the
comparison that is read above the lowest precedence, up to the semicolon. -/
theorem mixedText_levels_factor : Precedence.lowest ≤ Precedence.sum ∧ ∃ l e,
    (expr (endToken mixedText).pos .sum (tokens mixedText)).result = some l ∧
    l.render = "((-(a(b)[0])) * c)" ∧
    (expr (endToken mixedText).pos .lowest (tokens mixedText)).result = some e ∧
    e.render = "((((-(a(b)[0])) * c) + d) == e)" ∧ l.OnLeftSpine e ∧
    (lookahead (expr (endToken mixedText).pos .lowest (tokens mixedText)).rest).precedence ≤
      .lowest ∧
    (expr (endToken mixedText).pos .lowest (tokens mixedText)).rest <:+
      (expr (endToken mixedText).pos .sum (tokens mixedText)).rest := by
  have hle : Precedence.lowest ≤ Precedence.sum := by decide
  have hloose : (expr (endToken mixedText).pos .lowest (tokens mixedText)).result.map Expr.render =
      some "((((-(a(b)[0])) * c) + d) == e)" := by decide +kernel
  have htight : (expr (endToken mixedText).pos .sum (tokens mixedText)).result.map Expr.render =
      some "((-(a(b)[0])) * c)" := by decide +kernel
  obtain ⟨-, hbuilt, hrest, -⟩ := levels_factor (endToken mixedText).pos hle (tokens mixedText)
  obtain ⟨e, he, hrender⟩ := Option.map_eq_some_iff.mp hloose
  obtain ⟨hahead, l, hl, hspine⟩ := hbuilt e he
  rw [hl] at htight
  exact ⟨hle, l, e, hl, Option.some.inj htight, he, hrender, hspine, hahead, hrest⟩

end MonkeyLang
