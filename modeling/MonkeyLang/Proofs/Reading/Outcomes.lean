import MonkeyLang.Reading.Tree

/-!
# What can be said of replies

Ways of speaking about the reply of a parser.  `Reports` says exactly what the
reply is, and `Gives` does so when there are no errors; `Satisfies` says what
holds of it unless there are errors; `Builds` says what holds of whatever was
built, errors or not; `Mirrors` compares two replies to the same tokens in
other places.  Each goes along with the ways in which parsers are put together.
-/

namespace MonkeyLang

/-- Induction on how many tokens are left. -/
@[elab_as_elim]
theorem length_induction {α : Type} {P : List α → Prop} (ts : List α)
    (step : ∀ ts, (∀ us : List α, us.length < ts.length → P us) → P ts) : P ts :=
  step ts fun us _ => length_induction us step
termination_by ts.length

namespace Reply

variable {π α β : Type} {n m : Nat}

/-- A reply with a result or without one, the tokens that it leaves, and its errors. -/
structure Reports (x : Reply π α n) (a : Option α) (rest : List (Token π))
    (errors : List (ParseError π)) : Prop where
  result : x.result = a
  rest : x.rest = rest
  errors : x.errors = errors

/-- A reply with the result `a` that leaves the tokens `rest`, without errors. -/
structure Gives (x : Reply π α n) (a : α) (rest : List (Token π)) : Prop where
  result : x.result = some a
  rest : x.rest = rest
  errors : x.errors = []

/-- Unless there are errors, a reply has a result, and it and the tokens that
are left satisfy `P`. -/
def Satisfies (x : Reply π α n) (P : α → List (Token π) → Prop) : Prop :=
  x.errors = [] → ∃ a, x.result = some a ∧ P a x.rest

/-- Whatever a reply has built satisfies `P`, and all tokens that are left
satisfy `T`. -/
structure Builds (x : Reply π α n) (T : Token π → Prop) (P : α → Prop) : Prop where
  result : ∀ a, x.result = some a → P a
  rest : ∀ t ∈ x.rest, T t

/-! ## What replies report -/

section

variable {x : Reply π α n} {a : Option α} {b : Option β} {r rest : List (Token π)}
  {es es' : List (ParseError π)}

theorem Reports.weaken (hx : x.Reports a rest es) (h : n ≤ m) : (x.weaken h).Reports a rest es :=
  ⟨hx.result, hx.rest, hx.errors⟩

theorem Reports.map (hx : x.Reports a rest es) (f : α → β) :
    (x.map f).Reports (a.map f) rest es :=
  ⟨by rw [result_map, hx.result], hx.rest, hx.errors⟩

theorem Reports.andThenAny {f : Option α → (rest : List (Token π)) → rest.length ≤ n → Reply π β m}
    (hx : x.Reports a r es) (hf : ∀ hr, (f a r hr).Reports b rest es') :
    (x.andThenAny f).Reports b rest (es ++ es') := by
  obtain ⟨result, r', errors, hle⟩ := x
  obtain ⟨rfl, rfl, rfl⟩ := hx
  have hy := hf hle
  exact ⟨hy.result, hy.rest, congrArg (errors ++ ·) hy.errors⟩

theorem Reports.andThen {c : α} {f : α → (rest : List (Token π)) → rest.length ≤ n → Reply π β m}
    (hx : x.Reports (some c) r es) (h : n ≤ m) (hf : ∀ hr, (f c r hr).Reports b rest es') :
    (x.andThen h f).Reports b rest (es ++ es') := by
  obtain ⟨result, r', errors, hle⟩ := x
  obtain ⟨rfl, rfl, rfl⟩ := hx
  have hy := hf hle
  exact ⟨hy.result, hy.rest, congrArg (errors ++ ·) hy.errors⟩

/-- What would go on with a result does nothing where there is none. -/
theorem Reports.andThen_none {f : α → (rest : List (Token π)) → rest.length ≤ n → Reply π β m}
    (hx : x.Reports none rest es) (h : n ≤ m) : (x.andThen h f).Reports none rest es := by
  obtain ⟨result, r', errors, hle⟩ := x
  obtain ⟨rfl, rfl, rfl⟩ := hx
  exact ⟨rfl, rfl, rfl⟩

theorem Reports.recover_none (hx : x.Reports none rest es)
    (skip : List (Token π) → List (Token π)) (h : ∀ ts, (skip ts).length ≤ ts.length) :
    (x.recover skip h).Reports none (skip rest) es := by
  obtain ⟨result, r', errors, hle⟩ := x
  obtain ⟨rfl, rfl, rfl⟩ := hx
  exact ⟨rfl, rfl, rfl⟩

end

/-! ## Replies that give something -/

theorem Gives.reports {x : Reply π α n} {a : α} {rest : List (Token π)} (hx : x.Gives a rest) :
    x.Reports (some a) rest [] :=
  ⟨hx.result, hx.rest, hx.errors⟩

theorem gives_ok (a : α) (rest : List (Token π)) (h : rest.length ≤ n) :
    (ok a rest h).Gives a rest :=
  ⟨rfl, rfl, rfl⟩

theorem Gives.weaken {x : Reply π α n} {a : α} {rest : List (Token π)}
    (hx : x.Gives a rest) (h : n ≤ m) : (x.weaken h).Gives a rest :=
  ⟨hx.result, hx.rest, hx.errors⟩

theorem Gives.map {x : Reply π α n} {a : α} {rest : List (Token π)}
    (hx : x.Gives a rest) (f : α → β) : (x.map f).Gives (f a) rest :=
  ⟨by simp [hx.result], hx.rest, hx.errors⟩

theorem Gives.andThen {x : Reply π α n} {a : α} {b : β} {r rest : List (Token π)}
    {f : α → (rest : List (Token π)) → rest.length ≤ n → Reply π β m}
    (hx : x.Gives a r) (h : n ≤ m) (hf : ∀ hr, (f a r hr).Gives b rest) :
    (x.andThen h f).Gives b rest := by
  obtain ⟨result, r', errors, hle⟩ := x
  obtain ⟨rfl, rfl, rfl⟩ := hx
  have hy := hf hle
  exact ⟨by simp [Reply.andThen, hy.result], by simp [Reply.andThen, hy.rest],
    by simp [Reply.andThen, hy.errors]⟩

theorem Gives.andThenAny {x : Reply π α n} {a : α} {b : β} {r rest : List (Token π)}
    {f : Option α → (rest : List (Token π)) → rest.length ≤ n → Reply π β m}
    (hx : x.Gives a r) (hf : ∀ hr, (f (some a) r hr).Gives b rest) :
    (x.andThenAny f).Gives b rest := by
  obtain ⟨result, r', errors, hle⟩ := x
  obtain ⟨rfl, rfl, rfl⟩ := hx
  have hy := hf hle
  exact ⟨by simp [Reply.andThenAny, hy.result], by simp [Reply.andThenAny, hy.rest],
    by simp [Reply.andThenAny, hy.errors]⟩

theorem Gives.recover {x : Reply π α n} {a : α} {rest : List (Token π)}
    (hx : x.Gives a rest) (skip : List (Token π) → List (Token π))
    (h : ∀ ts, (skip ts).length ≤ ts.length) : (x.recover skip h).Gives a rest := by
  obtain ⟨result, r', errors, hle⟩ := x
  obtain ⟨rfl, rfl, rfl⟩ := hx
  exact ⟨rfl, rfl, rfl⟩

/-- A reply gives one thing only. -/
theorem Gives.unique {x : Reply π α n} {a b : α} {r s : List (Token π)}
    (ha : x.Gives a r) (hb : x.Gives b s) : a = b ∧ r = s :=
  ⟨Option.some.inj (ha.result.symm.trans hb.result), ha.rest.symm.trans hb.rest⟩

/-! ## Replies that satisfy something -/

theorem satisfies_ok {P : α → List (Token π) → Prop} {a : α} {rest : List (Token π)}
    (h : rest.length ≤ n) (hP : P a rest) : (ok a rest h).Satisfies P :=
  fun _ => ⟨a, rfl, hP⟩

theorem satisfies_fail (P : α → List (Token π) → Prop) (cause : ParseError.Cause) (pos : π)
    (rest : List (Token π)) (h : rest.length ≤ n) :
    (fail cause pos rest h : Reply π α n).Satisfies P := by
  intro herrors
  simp [fail] at herrors

theorem Satisfies.weaken {x : Reply π α n} {P : α → List (Token π) → Prop}
    (hx : x.Satisfies P) (h : n ≤ m) : (x.weaken h).Satisfies P :=
  hx

theorem Satisfies.map {x : Reply π α n} {P : α → List (Token π) → Prop}
    {Q : β → List (Token π) → Prop} {f : α → β} (hx : x.Satisfies P)
    (hf : ∀ a rest, P a rest → Q (f a) rest) : (x.map f).Satisfies Q := by
  intro herrors
  obtain ⟨a, ha, hP⟩ := hx herrors
  exact ⟨f a, by simp [ha], hf a _ hP⟩

theorem Satisfies.andThen {x : Reply π α n} {P : α → List (Token π) → Prop}
    {Q : β → List (Token π) → Prop}
    {f : α → (rest : List (Token π)) → rest.length ≤ n → Reply π β m}
    (hx : x.Satisfies P) (h : n ≤ m)
    (hf : ∀ a rest (hr : rest.length ≤ n), P a rest → (f a rest hr).Satisfies Q) :
    (x.andThen h f).Satisfies Q := by
  obtain ⟨result, r, errors, hle⟩ := x
  intro herrors
  cases result with
  | none =>
      obtain ⟨a, ha, -⟩ := hx herrors
      exact absurd ha (by simp)
  | some a =>
      obtain ⟨hxe, hye⟩ := List.append_eq_nil_iff.mp herrors
      obtain ⟨a', ha, hP⟩ := hx hxe
      obtain rfl := Option.some.inj ha
      exact hf a r hle hP hye

theorem Satisfies.andThenAny {x : Reply π α n} {P : α → List (Token π) → Prop}
    {Q : β → List (Token π) → Prop}
    {f : Option α → (rest : List (Token π)) → rest.length ≤ n → Reply π β m}
    (hx : x.Satisfies P)
    (hf : ∀ a rest (hr : rest.length ≤ n), P a rest → (f (some a) rest hr).Satisfies Q) :
    (x.andThenAny f).Satisfies Q := by
  obtain ⟨result, r, errors, hle⟩ := x
  intro herrors
  obtain ⟨hxe, hye⟩ := List.append_eq_nil_iff.mp herrors
  obtain ⟨a, ha, hP⟩ := hx hxe
  obtain rfl : result = some a := ha
  exact hf a r hle hP hye

theorem Satisfies.recover {x : Reply π α n} {P : α → List (Token π) → Prop}
    (hx : x.Satisfies P) (skip : List (Token π) → List (Token π))
    (h : ∀ ts, (skip ts).length ≤ ts.length) : (x.recover skip h).Satisfies P := by
  obtain ⟨result, r, errors, hle⟩ := x
  intro herrors
  cases result with
  | none =>
      obtain ⟨a, ha, -⟩ := hx herrors
      exact absurd ha (by simp)
  | some a => exact hx herrors

theorem Satisfies.mono {x : Reply π α n} {P Q : α → List (Token π) → Prop}
    (hx : x.Satisfies P) (hPQ : ∀ a rest, P a rest → Q a rest) : x.Satisfies Q := by
  intro herrors
  obtain ⟨a, ha, hP⟩ := hx herrors
  exact ⟨a, ha, hPQ a _ hP⟩

/-! ## Replies that build something -/

section

variable {T : Token π → Prop}

theorem builds_ok {P : α → Prop} {a : α} {rest : List (Token π)} (h : rest.length ≤ n)
    (ha : P a) (hrest : ∀ t ∈ rest, T t) : (ok a rest h).Builds T P :=
  ⟨fun _ hb => Option.some.inj hb ▸ ha, hrest⟩

theorem builds_fail {P : α → Prop} {cause : ParseError.Cause} {pos : π}
    {rest : List (Token π)} (h : rest.length ≤ n) (hrest : ∀ t ∈ rest, T t) :
    (fail cause pos rest h : Reply π α n).Builds T P :=
  ⟨fun _ hb => absurd hb (by simp [fail]), hrest⟩

theorem Builds.weaken {x : Reply π α n} {P : α → Prop} (hx : x.Builds T P) (h : n ≤ m) :
    (x.weaken h).Builds T P :=
  ⟨hx.result, hx.rest⟩

theorem Builds.map {x : Reply π α n} {P : α → Prop} {Q : β → Prop} {f : α → β}
    (hx : x.Builds T P) (hf : ∀ a, P a → Q (f a)) : (x.map f).Builds T Q := by
  refine ⟨fun b hb => ?_, hx.rest⟩
  obtain ⟨a, ha, rfl⟩ := Option.map_eq_some_iff.mp hb
  exact hf a (hx.result a ha)

theorem Builds.andThen {x : Reply π α n} {P : α → Prop} {Q : β → Prop}
    {f : α → (rest : List (Token π)) → rest.length ≤ n → Reply π β m}
    (hx : x.Builds T P) (h : n ≤ m)
    (hf : ∀ a rest (hr : rest.length ≤ n), P a → (∀ t ∈ rest, T t) →
      (f a rest hr).Builds T Q) :
    (x.andThen h f).Builds T Q := by
  obtain ⟨result, r, errors, hle⟩ := x
  cases result with
  | none => exact ⟨fun _ hb => absurd hb (by simp [Reply.andThen]), hx.rest⟩
  | some a =>
      have hy := hf a r hle (hx.result a rfl) hx.rest
      exact ⟨hy.result, hy.rest⟩

theorem Builds.andThenAny {x : Reply π α n} {P : α → Prop} {Q : β → Prop}
    {f : Option α → (rest : List (Token π)) → rest.length ≤ n → Reply π β m}
    (hx : x.Builds T P)
    (hf : ∀ a rest (hr : rest.length ≤ n), (∀ b, a = some b → P b) → (∀ t ∈ rest, T t) →
      (f a rest hr).Builds T Q) :
    (x.andThenAny f).Builds T Q := by
  have hy := hf x.result x.rest x.length_le hx.result hx.rest
  exact ⟨hy.result, hy.rest⟩

theorem Builds.recover {x : Reply π α n} {P : α → Prop} (hx : x.Builds T P)
    {skip : List (Token π) → List (Token π)} (h : ∀ ts, (skip ts).length ≤ ts.length)
    (hskip : ∀ ts, (∀ t ∈ ts, T t) → ∀ t ∈ skip ts, T t) :
    (x.recover skip h).Builds T P := by
  obtain ⟨result, r, errors, hle⟩ := x
  cases result with
  | none => exact ⟨fun _ hb => absurd hb (by simp [Reply.recover]), hskip r hx.rest⟩
  | some a => exact ⟨hx.result, hx.rest⟩

end

/-! ## Replies that mirror each other -/

section

variable {ρ α' β' : Type} {n' m' : Nat} {f : π → ρ}

/-- The reply `y` is the reply `x` with the places changed by `f` in tokens and
errors, and by `g` in the result. -/
structure Mirrors (f : π → ρ) (g : α → α') (x : Reply π α n) (y : Reply ρ α' n') : Prop where
  result : y.result = x.result.map g
  rest : y.rest = x.rest.map (Token.map f)
  errors : y.errors = x.errors.map (ParseError.map f)

theorem mirrors_ok {g : α → α'} {a : α} {a' : α'} {rest : List (Token π)}
    {rest' : List (Token ρ)} (h : rest.length ≤ n) (h' : rest'.length ≤ n')
    (ha : a' = g a) (hrest : rest' = rest.map (Token.map f)) :
    (ok a rest h).Mirrors f g (ok a' rest' h') :=
  ⟨congrArg some ha, hrest, rfl⟩

theorem mirrors_fail (g : α → α') (cause : ParseError.Cause) (pos : π)
    {rest : List (Token π)} {rest' : List (Token ρ)} (h : rest.length ≤ n)
    (h' : rest'.length ≤ n') (hrest : rest' = rest.map (Token.map f)) :
    (fail cause pos rest h : Reply π α n).Mirrors f g (fail cause (f pos) rest' h') :=
  ⟨rfl, hrest, rfl⟩

theorem Mirrors.weaken {g : α → α'} {x : Reply π α n} {y : Reply ρ α' n'}
    (hx : x.Mirrors f g y) (h : n ≤ m) (h' : n' ≤ m') :
    (x.weaken h).Mirrors f g (y.weaken h') :=
  ⟨hx.result, hx.rest, hx.errors⟩

theorem Mirrors.map {g : α → α'} {g' : β → β'} {x : Reply π α n} {y : Reply ρ α' n'}
    {k : α → β} {k' : α' → β'} (hx : x.Mirrors f g y) (hk : ∀ a, k' (g a) = g' (k a)) :
    (x.map k).Mirrors f g' (y.map k') := by
  refine ⟨?_, hx.rest, hx.errors⟩
  rw [result_map, result_map, hx.result]
  cases x.result with
  | none => rfl
  | some a => exact congrArg some (hk a)

theorem Mirrors.andThen {g : α → α'} {g' : β → β'} {x : Reply π α n} {y : Reply ρ α' n'}
    {k : α → (rest : List (Token π)) → rest.length ≤ n → Reply π β m}
    {k' : α' → (rest : List (Token ρ)) → rest.length ≤ n' → Reply ρ β' m'}
    (hx : x.Mirrors f g y) (h : n ≤ m) (h' : n' ≤ m')
    (hk : ∀ a rest hr hr', (k a rest hr).Mirrors f g' (k' (g a) (rest.map (Token.map f)) hr')) :
    (x.andThen h k).Mirrors f g' (y.andThen h' k') := by
  obtain ⟨result, r, errors, hle⟩ := x
  obtain ⟨result', r', errors', hle'⟩ := y
  obtain ⟨rfl, rfl, rfl⟩ := hx
  cases result with
  | none => exact ⟨rfl, rfl, rfl⟩
  | some a =>
      have hy := hk a r hle hle'
      exact ⟨hy.result, hy.rest, by simp [Reply.andThen, hy.errors]⟩

theorem Mirrors.andThenAny {g : α → α'} {g' : β → β'} {x : Reply π α n} {y : Reply ρ α' n'}
    {k : Option α → (rest : List (Token π)) → rest.length ≤ n → Reply π β m}
    {k' : Option α' → (rest : List (Token ρ)) → rest.length ≤ n' → Reply ρ β' m'}
    (hx : x.Mirrors f g y)
    (hk : ∀ a rest hr hr',
      (k a rest hr).Mirrors f g' (k' (a.map g) (rest.map (Token.map f)) hr')) :
    (x.andThenAny k).Mirrors f g' (y.andThenAny k') := by
  obtain ⟨result, r, errors, hle⟩ := x
  obtain ⟨result', r', errors', hle'⟩ := y
  obtain ⟨rfl, rfl, rfl⟩ := hx
  have hy := hk result r hle hle'
  exact ⟨hy.result, hy.rest, by simp [Reply.andThenAny, hy.errors]⟩

theorem Mirrors.recover {g : α → α'} {x : Reply π α n} {y : Reply ρ α' n'}
    {skip : List (Token π) → List (Token π)} {skip' : List (Token ρ) → List (Token ρ)}
    (hx : x.Mirrors f g y) (h : ∀ ts, (skip ts).length ≤ ts.length)
    (h' : ∀ ts, (skip' ts).length ≤ ts.length)
    (hskip : ∀ ts, skip' (ts.map (Token.map f)) = (skip ts).map (Token.map f)) :
    (x.recover skip h).Mirrors f g (y.recover skip' h') := by
  obtain ⟨result, r, errors, hle⟩ := x
  obtain ⟨result', r', errors', hle'⟩ := y
  obtain ⟨rfl, rfl, rfl⟩ := hx
  cases result with
  | none => exact ⟨rfl, hskip r, rfl⟩
  | some a => exact ⟨rfl, rfl, rfl⟩

end

end Reply

end MonkeyLang
