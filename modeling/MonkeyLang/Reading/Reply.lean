import MonkeyLang.Reading.Error

/-!
# Replies of parsers

A parser takes tokens off the front of a list.  Whether or not it builds
something, it says what tokens are left and which errors it found.  Errors do
not stop reading, so a reply may have both a result and errors.

The number in the type of a reply bounds how many tokens are left.  It is what
makes the recursion of the parsers end.
-/

namespace MonkeyLang

/-- What a parser has built, if anything, the tokens it has left, at most `n`,
and the errors it found, in the order found. -/
structure Reply (π α : Type) (n : Nat) where
  result : Option α
  rest : List (Token π)
  errors : List (ParseError π)
  length_le : rest.length ≤ n

namespace Reply

variable {π α β : Type} {n m k : Nat}

/-- A result, without errors. -/
def ok (a : α) (rest : List (Token π)) (h : rest.length ≤ n) : Reply π α n :=
  ⟨some a, rest, [], h⟩

/-- No result, because of one error. -/
def fail (cause : ParseError.Cause) (pos : π) (rest : List (Token π))
    (h : rest.length ≤ n) : Reply π α n :=
  ⟨none, rest, [⟨cause, pos⟩], h⟩

/-- The same reply under a weaker bound. -/
def weaken (x : Reply π α n) (h : n ≤ m) : Reply π α m :=
  ⟨x.result, x.rest, x.errors, Nat.le_trans x.length_le h⟩

/-- The reply with its result changed, if it has one. -/
def map (f : α → β) (x : Reply π α n) : Reply π β n :=
  ⟨x.result.map f, x.rest, x.errors, x.length_le⟩

/-- The reply that goes on in any case, with the result or without one. -/
def andThenAny (x : Reply π α n)
    (f : Option α → (rest : List (Token π)) → rest.length ≤ n → Reply π β m) :
    Reply π β m :=
  let y := f x.result x.rest x.length_le
  ⟨y.result, y.rest, x.errors ++ y.errors, y.length_le⟩

/-- The reply that goes on with the result, and fails where there is none. -/
def andThen (x : Reply π α n) (h : n ≤ m)
    (f : α → (rest : List (Token π)) → rest.length ≤ n → Reply π β m) : Reply π β m :=
  match x.result with
  | none => ⟨none, x.rest, x.errors, Nat.le_trans x.length_le h⟩
  | some a =>
    let y := f a x.rest x.length_le
    ⟨y.result, y.rest, x.errors ++ y.errors, y.length_le⟩

/-- The reply that passes over some of the tokens left when it has failed. -/
def recover (x : Reply π α n) (skip : List (Token π) → List (Token π))
    (h : ∀ ts, (skip ts).length ≤ ts.length) : Reply π α n :=
  match x.result with
  | none => ⟨none, skip x.rest, x.errors, Nat.le_trans (h _) x.length_le⟩
  | some a => ⟨some a, x.rest, x.errors, x.length_le⟩

section

variable (x : Reply π α n)

@[simp]
theorem result_weaken (h : n ≤ m) : (x.weaken h).result = x.result := rfl

@[simp]
theorem rest_weaken (h : n ≤ m) : (x.weaken h).rest = x.rest := rfl

@[simp]
theorem errors_weaken (h : n ≤ m) : (x.weaken h).errors = x.errors := rfl

@[simp]
theorem result_map (f : α → β) : (x.map f).result = x.result.map f := rfl

@[simp]
theorem rest_map (f : α → β) : (x.map f).rest = x.rest := rfl

@[simp]
theorem errors_map (f : α → β) : (x.map f).errors = x.errors := rfl

end

end Reply

end MonkeyLang
