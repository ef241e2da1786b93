import MonkeyLang.Proofs.Reading.Outcomes

/-!
# Climbing level by level

An expression that is read above some precedence is read above a tighter one first, and then
extended from there.  For what binds tighter is extended by both, in the same way; and where the
tighter one stops, the other one is as if it had just come there.

Replies go along with this because it does not matter whether what goes on with a reply goes on
in one step or in two.
-/

namespace MonkeyLang

namespace Reply

variable {π α β γ : Type} {n m k : Nat}

theorem ok_andThen (a : α) (rest : List (Token π)) (h : rest.length ≤ n) (hm : n ≤ m)
    (f : α → (rest : List (Token π)) → rest.length ≤ n → Reply π β m) :
    (ok a rest h).andThen hm f = f a rest h := rfl

theorem andThen_congr (x : Reply π α n) (hm : n ≤ m)
    {f g : α → (rest : List (Token π)) → rest.length ≤ n → Reply π β m}
    (hfg : ∀ a rest hr, f a rest hr = g a rest hr) : x.andThen hm f = x.andThen hm g := by
  obtain rfl : f = g := funext fun a => funext fun rest => funext fun hr => hfg a rest hr
  rfl

theorem weaken_andThen (x : Reply π α n) (h : n ≤ m) (hk : m ≤ k)
    (f : α → (rest : List (Token π)) → rest.length ≤ m → Reply π β k) :
    (x.weaken h).andThen hk f =
      x.andThen (Nat.le_trans h hk) fun a rest hr => f a rest (Nat.le_trans hr h) := rfl

theorem andThen_weaken (x : Reply π α n) (h : n ≤ m) (hk : m ≤ k)
    (f : α → (rest : List (Token π)) → rest.length ≤ n → Reply π β m) :
    (x.andThen h f).weaken hk =
      x.andThen (Nat.le_trans h hk) fun a rest hr => (f a rest hr).weaken hk := by
  obtain ⟨result, rest, errors, hle⟩ := x
  cases result <;> rfl

/-- A reply with some errors before its own. -/
def behind (es : List (ParseError π)) (x : Reply π α n) : Reply π α n :=
  ⟨x.result, x.rest, es ++ x.errors, x.length_le⟩

theorem behind_andThen (es : List (ParseError π)) (x : Reply π α n) (hm : n ≤ m)
    (f : α → (rest : List (Token π)) → rest.length ≤ n → Reply π β m) :
    (x.behind es).andThen hm f = (x.andThen hm f).behind es := by
  obtain ⟨result, rest, errors, hle⟩ := x
  cases result with
  | none => rfl
  | some a => simp only [andThen, behind, List.append_assoc]

/-- It does not matter which of two steps are taken together. -/
theorem andThen_assoc (x : Reply π α n) (hm : n ≤ m) (hk : m ≤ k)
    (f : α → (rest : List (Token π)) → rest.length ≤ n → Reply π β m)
    (g : β → (rest : List (Token π)) → rest.length ≤ m → Reply π γ k) :
    (x.andThen hm f).andThen hk g =
      x.andThen (Nat.le_trans hm hk) fun a rest hr => (f a rest hr).andThen hk g := by
  obtain ⟨result, rest, errors, hle⟩ := x
  cases result with
  | none => rfl
  | some a => exact behind_andThen errors (f a rest hle) hk g

end Reply

namespace Reading

variable {π : Type} (endPos : π) {p q : Precedence}

/-- What follows an expression binds tighter than a precedence and goes on with it, or does
neither. -/
theorem stops_or_continues (p : Precedence) (ts : List (Token π)) :
    (∀ t ∈ ts.head?, ¬p < t.kind.precedence) ∨
      ∃ t r c, ts = t :: r ∧ Continuation.ofKind? t.kind = some c ∧ p < c.precedence := by
  cases ts with
  | nil => exact .inl nofun
  | cons t r =>
      cases hc : Continuation.ofKind? t.kind with
      | none =>
          have hlowest : t.kind.precedence = .lowest := by rw [Kind.precedence, hc]
          refine .inl fun u hu => ?_
          obtain rfl := Option.some.inj hu
          rw [hlowest]
          exact Nat.not_lt_zero _
      | some c =>
          have hprec : t.kind.precedence = c.precedence := by rw [Kind.precedence, hc]
          by_cases hp : p < c.precedence
          · exact .inr ⟨t, r, c, rfl, hc, hp⟩
          · refine .inl fun u hu => ?_
            obtain rfl := Option.some.inj hu
            rwa [hprec]

/-- Climbing stops before what does not bind tighter. -/
theorem climb_eq_ok {ts : List (Token π)} (h : ∀ t ∈ ts.head?, ¬p < t.kind.precedence)
    (left : Expr (Token π)) : climb endPos p left ts = .ok left ts (Nat.le_refl _) := by
  cases ts with
  | nil => rw [climb]
  | cons t r =>
      have hp := h t rfl
      rw [climb]
      split
      · rfl
      · next c hc =>
        rw [Kind.precedence, hc] at hp
        rw [if_neg hp]

/-- Climbing goes on with what binds tighter. -/
theorem climb_eq_extend {t : Token π} {c : Continuation} (hc : Continuation.ofKind? t.kind = some c)
    (hp : p < c.precedence) (left : Expr (Token π)) (r : List (Token π)) :
    climb endPos p left (t :: r) =
      (extend endPos left c t r).andThen (Nat.le_succ _) fun left' rest hr =>
        (climb endPos p left' rest).weaken (Nat.le_succ_of_le hr) := by
  rw [climb]
  simp only [hc, hp, if_true]

/-- Climbing on above a precedence is climbing on above a tighter one, and then climbing on from
there. -/
theorem climb_eq_andThen (hpq : p ≤ q) (left : Expr (Token π)) (ts : List (Token π)) :
    climb endPos p left ts =
      (climb endPos q left ts).andThen (Nat.le_refl _) fun left' rest hr =>
        (climb endPos p left' rest).weaken hr := by
  induction ts using length_induction generalizing left with
  | step ts ih =>
      rcases stops_or_continues q ts with hstop | ⟨t, r, c, rfl, hc, hq⟩
      · rw [climb_eq_ok endPos hstop, Reply.ok_andThen]
        rfl
      · have hp : p < c.precedence := Nat.lt_of_le_of_lt hpq hq
        rw [climb_eq_extend endPos hc hp, climb_eq_extend endPos hc hq, Reply.andThen_assoc]
        refine Reply.andThen_congr _ _ fun left' rest hr => ?_
        rw [ih rest (Nat.lt_succ_of_le hr) left', Reply.weaken_andThen, Reply.andThen_weaken]
        rfl

/-- Reading an expression above a precedence is reading it above a tighter one, and then climbing
on from there. -/
theorem expr_eq_andThen (hpq : p ≤ q) (ts : List (Token π)) :
    expr endPos p ts =
      (expr endPos q ts).andThen (Nat.le_refl _) fun left rest hr =>
        (climb endPos p left rest).weaken hr := by
  cases ts with
  | nil =>
      rw [expr, expr]
      rfl
  | cons t r =>
      rw [expr, expr, Reply.andThen_assoc]
      refine Reply.andThen_congr _ _ fun left rest hr => ?_
      rw [climb_eq_andThen endPos hpq, Reply.weaken_andThen, Reply.andThen_weaken]
      rfl

end Reading

end MonkeyLang
