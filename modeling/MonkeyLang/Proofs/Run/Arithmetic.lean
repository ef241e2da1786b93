import Mathlib.Data.Int.ModEq
import MonkeyLang.Host.Memory
import MonkeyLang.Proofs.Run.Job

/-!
# Arithmetic

Numbers are words of 64 bits in two's complement.  Sums, differences, products and quotients are
the words that are congruent to those of the integers; only the quotient of the least number by
-1 is another than that of the integers.  So quotient and remainder go together, and so do the
operators on bits and the sum.  Nothing but a division by zero fails.
-/

namespace MonkeyLang

/-! ## Words and integers -/

/-- What comes of an operator is the only word that is congruent to the integer `z`. -/
def Wraps (x : Except RuntimeError Value) (z : Int) : Prop :=
  ∃ n : Int64, x = .ok (.int n) ∧ ∀ m : Int64, m.toInt ≡ z [ZMOD 2 ^ 64] ↔ m = n

/-- A word is congruent to the integers from which it comes by wrapping around, and to no
others. -/
theorem wraps_of_toInt {n : Int64} {z : Int} (h : n.toInt = z.bmod (2 ^ 64)) :
    Wraps (.ok (.int n)) z := by
  refine ⟨n, rfl, ?_⟩
  intro m
  have hm : m.toInt.bmod (2 ^ 64) = m.toInt := m.toInt_bmod
  constructor
  · intro hmod
    have hbmod : m.toInt.bmod (2 ^ 64) = z.bmod (2 ^ 64) := by
      rw [← Int.emod_bmod m.toInt, ← Int.emod_bmod z]
      exact congrArg (Int.bmod · (2 ^ 64)) hmod
    exact Int64.toInt_inj.mp (by rw [← hm, hbmod, h])
  · rintro rfl
    rw [h]
    exact Int.bmod_emod

/-- The word is zero or has the sign of the other. -/
def SignedLike (n l : Int64) : Prop :=
  n = 0 ∨ n.toInt.sign = l.toInt.sign

theorem signedLike_mod (l r : Int64) : SignedLike (l % r) l := by
  have hsign := Int.sign_tmod l.toInt r.toInt
  rw [← Int64.toInt_mod] at hsign
  by_cases hdvd : r.toInt ∣ l.toInt
  · rw [if_pos hdvd] at hsign
    exact Or.inl (Int64.toInt_inj.mp (Int.sign_eq_zero_iff_zero.mp hsign))
  · rw [if_neg hdvd] at hsign
    exact Or.inr hsign

theorem natAbs_mod_lt (l : Int64) {r : Int64} (hr : r ≠ 0) :
    (l % r).toInt.natAbs < r.toInt.natAbs := by
  have hpos : 0 < r.toInt.natAbs := by
    refine Int.natAbs_pos.mpr ?_
    intro hzero
    exact hr (Int64.toInt_inj.mp hzero)
  rw [Int64.toInt_mod, Int.natAbs_tmod]
  exact Nat.mod_lt _ hpos

/-- A quotient is that of the integers, unless the least number is divided by -1. -/
theorem toInt_div_ne_iff (l r : Int64) :
    (l / r).toInt ≠ l.toInt.tdiv r.toInt ↔ l = Int64.minValue ∧ r = -1 := by
  constructor
  · intro hne
    constructor
    · by_contra hl
      exact hne (Int64.toInt_div_of_ne_left l r hl)
    · by_contra hr
      exact hne (Int64.toInt_div_of_ne_right l r hr)
  · rintro ⟨rfl, rfl⟩
    decide

/-- Quotient and remainder make up the number that was divided, also where the quotient has
wrapped around. -/
theorem div_mul_add_mod (l r : Int64) : l / r * r + l % r = l := by
  refine Int64.toInt_inj.mp ?_
  calc (l / r * r + l % r).toInt
      = (l.toInt.tdiv r.toInt * r.toInt + l.toInt.tmod r.toInt).bmod (2 ^ 64) := by simp
    _ = l.toInt.bmod (2 ^ 64) := by rw [Int.tdiv_mul_add_tmod]
    _ = l.toInt := l.toInt_bmod

/-! ## Words and bits -/

/-- What comes of an operator has in each of its bits what `f` makes of the bits of `l` and `r`
there. -/
def Bitwise (x : Except RuntimeError Value) (f : Bool → Bool → Bool) (l r : Int64) : Prop :=
  ∃ n : Int64, x = .ok (.int n) ∧
    ∀ i, n.toBitVec.getLsbD i = f (l.toBitVec.getLsbD i) (r.toBitVec.getLsbD i)

section

variable {w : Nat} (x y : BitVec w)

/-- The bits that two words share, and those that only the first has, make up the first. -/
theorem and_add_and_not : (x &&& y) + (x &&& ~~~y) = x := by
  have hdisjoint : (x &&& y) &&& (x &&& ~~~y) = 0#w := by
    ext i hi
    cases hx : x[i] <;> cases hy : y[i] <;> simp [hx, hy]
  rw [BitVec.add_eq_or_of_and_eq_zero _ _ hdisjoint]
  ext i hi
  cases hy : y[i] <;> simp [hy]

theorem and_not_add : (x &&& ~~~y) + y = x ||| y := by
  have hdisjoint : (x &&& ~~~y) &&& y = 0#w := by
    ext i hi
    simp
  rw [BitVec.add_eq_or_of_and_eq_zero _ _ hdisjoint]
  ext i hi
  cases hy : y[i] <;> simp [hy]

theorem and_not_add_and_not : (x &&& ~~~y) + (y &&& ~~~x) = x ^^^ y := by
  have hdisjoint : (x &&& ~~~y) &&& (y &&& ~~~x) = 0#w := by
    ext i hi
    cases hx : x[i] <;> cases hy : y[i] <;> simp [hx, hy]
  rw [BitVec.add_eq_or_of_and_eq_zero _ _ hdisjoint]
  ext i hi
  cases hx : x[i] <;> cases hy : y[i] <;> simp [hx, hy]

theorem and_add_or : (x &&& y) + (x ||| y) = x + y := by
  rw [← and_not_add, ← BitVec.add_assoc, and_add_and_not]

/-- Where both words have a bit it counts twice. -/
theorem xor_add_and_add_and : (x ^^^ y) + ((x &&& y) + (x &&& y)) = x + y := by
  have hx := and_add_and_not x y
  have hy := and_add_and_not y x
  rw [BitVec.and_comm y x] at hy
  calc (x ^^^ y) + ((x &&& y) + (x &&& y))
      = ((x &&& ~~~y) + (y &&& ~~~x)) + ((x &&& y) + (x &&& y)) := by rw [and_not_add_and_not]
    _ = ((x &&& y) + (x &&& ~~~y)) + ((x &&& y) + (y &&& ~~~x)) := by ac_rfl
    _ = x + y := by rw [hx, hy]

end

theorem land_add_lor (l r : Int64) : (l &&& r) + (l ||| r) = l + r :=
  Int64.toBitVec_inj.mp (and_add_or l.toBitVec r.toBitVec)

theorem xor_add_two_mul_land (l r : Int64) : (l ^^^ r) + 2 * (l &&& r) = l + r := by
  rw [Int64.two_mul]
  exact Int64.toBitVec_inj.mp (xor_add_and_add_and l.toBitVec r.toBitVec)

/-! ## What operators make of numbers -/

/-- The operators between numbers are those of two's complement. -/
structure TwosComplement (l r : Int64) : Prop where
  add : Wraps (BinaryOp.add.apply (.int l) (.int r)) (l.toInt + r.toInt)
  subtract : Wraps (BinaryOp.subtract.apply (.int l) (.int r)) (l.toInt - r.toInt)
  multiply : Wraps (BinaryOp.multiply.apply (.int l) (.int r)) (l.toInt * r.toInt)
  negate : Wraps (UnaryOp.negate.apply (.int l)) (-l.toInt)
  /-- Only a division by zero is an error. -/
  zero : ∀ op ∈ [BinaryOp.divide, .modulo],
    op.apply (.int l) (.int r) = .error .divisionByZero ↔ r = 0
  /-- A quotient is truncated toward zero. -/
  divide : r ≠ 0 → Wraps (BinaryOp.divide.apply (.int l) (.int r)) (l.toInt.tdiv r.toInt)
  /-- The least number divided by -1 is the least number; no other quotient wraps around. -/
  least : ∀ n : Int64, BinaryOp.divide.apply (.int l) (.int r) = .ok (.int n) →
    (n.toInt ≠ l.toInt.tdiv r.toInt ↔ l = Int64.minValue ∧ r = -1) ∧
    (l = Int64.minValue → r = -1 → n = Int64.minValue)
  modulo : r ≠ 0 → ∃ n : Int64, BinaryOp.modulo.apply (.int l) (.int r) = .ok (.int n) ∧
    n.toInt.natAbs < r.toInt.natAbs ∧ SignedLike n l
  bitAnd : Bitwise (BinaryOp.bitAnd.apply (.int l) (.int r)) and l r
  bitOr : Bitwise (BinaryOp.bitOr.apply (.int l) (.int r)) or l r
  bitXor : Bitwise (BinaryOp.bitXor.apply (.int l) (.int r)) xor l r
  /-- Numbers are compared as integers. -/
  equal : BinaryOp.equal.apply (.int l) (.int r) = .ok (.bool (l.toInt = r.toInt))
  less : BinaryOp.less.apply (.int l) (.int r) = .ok (.bool (l.toInt < r.toInt))
  lessEqual : BinaryOp.lessEqual.apply (.int l) (.int r) = .ok (.bool (l.toInt ≤ r.toInt))
  /-- Opposite operators never agree. -/
  opposite : ∀ p ∈ [(BinaryOp.equal, BinaryOp.notEqual), (.less, .greaterEqual),
    (.lessEqual, .greater)], ∃ b, p.1.apply (.int l) (.int r) = .ok (.bool b) ∧
      p.2.apply (.int l) (.int r) = .ok (.bool !b)

theorem divide_apply (l : Int64) {r : Int64} (hr : r ≠ 0) :
    BinaryOp.divide.apply (.int l) (.int r) = .ok (.int (l / r)) :=
  if_neg hr

theorem modulo_apply (l : Int64) {r : Int64} (hr : r ≠ 0) :
    BinaryOp.modulo.apply (.int l) (.int r) = .ok (.int (l % r)) :=
  if_neg hr

theorem twosComplement (l r : Int64) : TwosComplement l r where
  add := wraps_of_toInt (Int64.toInt_add l r)
  subtract := wraps_of_toInt (Int64.toInt_sub l r)
  multiply := wraps_of_toInt (Int64.toInt_mul l r)
  negate := wraps_of_toInt (Int64.toInt_neg l)
  zero := by
    intro op hop
    simp only [List.mem_cons, List.not_mem_nil, or_false] at hop
    by_cases hr : r = 0
    · rcases hop with rfl | rfl <;> simp [BinaryOp.apply, BinaryOp.applyInt, hr]
    · rcases hop with rfl | rfl <;> simp [BinaryOp.apply, BinaryOp.applyInt, hr]
  divide := by
    intro hr
    rw [divide_apply l hr]
    exact wraps_of_toInt (Int64.toInt_div l r)
  least := by
    intro n hn
    by_cases hr : r = 0
    · rw [hr] at hn
      cases hn
    · rw [divide_apply l hr] at hn
      cases hn
      refine ⟨toInt_div_ne_iff l r, ?_⟩
      rintro rfl rfl
      exact Int64.minValue_div_neg_one
  modulo := by
    intro hr
    exact ⟨l % r, modulo_apply l hr, natAbs_mod_lt l hr, signedLike_mod l r⟩
  bitAnd := ⟨l &&& r, rfl, fun _ => BitVec.getLsbD_and⟩
  bitOr := ⟨l ||| r, rfl, fun _ => BitVec.getLsbD_or⟩
  bitXor := ⟨l ^^^ r, rfl, fun _ => BitVec.getLsbD_xor⟩
  equal := by simp [BinaryOp.apply, BinaryOp.applyInt, Int64.toInt_inj, beq_eq_decide]
  less := by simp [BinaryOp.apply, BinaryOp.applyInt, Int64.lt_iff_toInt_lt]
  lessEqual := by simp [BinaryOp.apply, BinaryOp.applyInt, Int64.le_iff_toInt_le]
  opposite := by
    intro p hp
    simp only [List.mem_cons, List.not_mem_nil, or_false] at hp
    rcases hp with rfl | rfl | rfl
    · exact ⟨l == r, rfl, rfl⟩
    · refine ⟨decide (l < r), rfl, ?_⟩
      have hopposite : decide (r ≤ l) = !decide (l < r) := by
        simp [Int64.lt_iff_toInt_lt, Int64.le_iff_toInt_le, ← decide_not]
      exact congrArg (fun b => Except.ok (Value.bool b)) hopposite
    · refine ⟨decide (l ≤ r), rfl, ?_⟩
      have hopposite : decide (r < l) = !decide (l ≤ r) := by
        simp [Int64.lt_iff_toInt_lt, Int64.le_iff_toInt_le, ← decide_not]
      exact congrArg (fun b => Except.ok (Value.bool b)) hopposite

/-! ## Evaluation -/

/-- The interrupt that an error is. -/
def RuntimeError.interrupt (e : RuntimeError) : Interrupt :=
  .error e.message

theorem RunOn.ending_ofExcept {σ S β : Type} (x : Except RuntimeError β) (st : σ) (s : S) :
    (Run.ofExcept x : RunOn σ (StateM S) β).ending st s =
      ⟨some (x.mapError RuntimeError.interrupt), st, s⟩ := by
  cases x with
  | ok v => rfl
  | error e => rfl

open RunOn

variable {α S : Type} [Host (StateM S)]

namespace Job

variable [Digest] {scope : ScopeId} {h h₁ h₂ : Heap α} {s s₁ s₂ : S} {a b : Expr α} {v w : Value}

theorem ends_unary (t : α) (op : UnaryOp) (ha : Ends ⟨.expr scope a, h, s⟩ (.ok v) h₁ s₁) :
    Ends ⟨.expr scope (.unary t op a), h, s⟩
      ((op.apply v).mapError RuntimeError.interrupt) h₁ s₁ := by
  obtain ⟨n, ha⟩ := ha.exists
  exact .of_ending (n := n + 1) ((ending_bind_of_ok ha).trans (ending_ofExcept _ _ _))

theorem ends_binary (t : α) (op : BinaryOp) (ha : Ends ⟨.expr scope a, h, s⟩ (.ok v) h₁ s₁)
    (hb : Ends ⟨.expr scope b, h₁, s₁⟩ (.ok w) h₂ s₂) :
    Ends ⟨.expr scope (.binary t op a b), h, s⟩
      ((op.apply v w).mapError RuntimeError.interrupt) h₂ s₂ := by
  obtain ⟨n, ha, hb⟩ := (ha.and hb).exists
  refine .of_ending (n := n + 1) ((ending_bind_of_ok ha).trans ((ending_bind_of_ok hb).trans ?_))
  exact ending_ofExcept _ _ _

/-- In a scope, an expression comes to a value and leaves all as it is. -/
abbrev Denotes (scope : ScopeId) (h : Heap α) (s : S) (e : Expr α) (v : Value) : Prop :=
  Ends ⟨.expr scope e, h, s⟩ (.ok v) h s

theorem denotes_int (t : α) (n : Int64) : Denotes scope h s (.int t n) (.int n) :=
  .of_ending (n := 1) rfl

theorem Denotes.binary (t : α) (op : BinaryOp) {x : Value} (ha : Denotes scope h s a v)
    (hb : Denotes scope h s b w) (hx : op.apply v w = .ok x) :
    Denotes scope h s (.binary t op a b) x := by
  have hends := ends_binary t op ha hb
  rw [hx] at hends
  exact hends

end Job

open Job

/-- The arithmetic of numbers is that of two's complement, in evaluation as well: operands may do
what they like, and then an operator makes its value of theirs.  Operands that only come to
numbers can be written twice; so a number is made up of its quotient and its remainder, and two
operators on bits together are a sum. -/
theorem arithmetic_is_exact [Digest] :
    (∀ l r : Int64, TwosComplement l r) ∧
    RuntimeError.divisionByZero.message = "division by zero" ∧
    (∀ scope (t : α) a b (h h₁ h₂ : Heap α) (s s₁ s₂ : S) v w,
      Ends ⟨.expr scope a, h, s⟩ (.ok v) h₁ s₁ →
        (∀ op : UnaryOp, Ends ⟨.expr scope (.unary t op a), h, s⟩
          ((op.apply v).mapError RuntimeError.interrupt) h₁ s₁) ∧
        (Ends ⟨.expr scope b, h₁, s₁⟩ (.ok w) h₂ s₂ →
          ∀ op : BinaryOp, Ends ⟨.expr scope (.binary t op a b), h, s⟩
            ((op.apply v w).mapError RuntimeError.interrupt) h₂ s₂)) ∧
    ∀ scope (t₁ t₂ t₃ t₄ t₅ : α) a b (h : Heap α) (s : S) l r,
      Denotes scope h s a (.int l) → Denotes scope h s b (.int r) →
        (r ≠ 0 → Denotes scope h s (.binary t₁ .add
          (.binary t₂ .multiply (.binary t₃ .divide a b) b) (.binary t₄ .modulo a b)) (.int l)) ∧
        Denotes scope h s (.binary t₁ .add a b) (.int (l + r)) ∧
        Denotes scope h s (.binary t₁ .add (.binary t₂ .bitAnd a b) (.binary t₃ .bitOr a b))
          (.int (l + r)) ∧
        Denotes scope h s (.binary t₁ .add (.binary t₂ .bitXor a b)
          (.binary t₃ .multiply (.int t₄ 2) (.binary t₅ .bitAnd a b))) (.int (l + r)) := by
  refine ⟨twosComplement, rfl, ?_, ?_⟩
  · intro scope t a b h h₁ h₂ s s₁ s₂ v w ha
    exact ⟨fun op => ends_unary t op ha, fun hb op => ends_binary t op ha hb⟩
  · intro scope t₁ t₂ t₃ t₄ t₅ a b h s l r ha hb
    refine ⟨?_, ha.binary t₁ .add hb rfl, ?_, ?_⟩
    · intro hr
      have hquotient := ha.binary t₃ .divide hb (divide_apply l hr)
      have hremainder := ha.binary t₄ .modulo hb (modulo_apply l hr)
      have hsum := (hquotient.binary t₂ .multiply hb rfl).binary t₁ .add hremainder rfl
      rwa [div_mul_add_mod] at hsum
    · have hand := ha.binary t₂ .bitAnd hb rfl
      have hsum := hand.binary t₁ .add (ha.binary t₃ .bitOr hb rfl) rfl
      rwa [land_add_lor] at hsum
    · have hand := ha.binary t₅ .bitAnd hb rfl
      have hdouble := (denotes_int t₄ 2).binary t₃ .multiply hand rfl
      have hsum := (ha.binary t₂ .bitXor hb rfl).binary t₁ .add hdouble rfl
      rwa [xor_add_two_mul_land] at hsum

/-- The least number, divided by -1 and taken apart and put together again. -/
theorem least_and_minusOne_exact :
    Denotes 0 (Heap.initial (α := Unit)) (Memory.start [] ∅) (.int () Int64.minValue)
        (.int Int64.minValue) ∧
      Denotes 0 (Heap.initial (α := Unit)) (Memory.start [] ∅) (.unary () .negate (.int () 1))
        (.int (-1)) ∧
      Denotes 0 (Heap.initial (α := Unit)) (Memory.start [] ∅)
        (.binary () .add (.binary () .multiply
          (.binary () .divide (.int () Int64.minValue) (.unary () .negate (.int () 1)))
          (.unary () .negate (.int () 1)))
          (.binary () .modulo (.int () Int64.minValue) (.unary () .negate (.int () 1))))
        (.int Int64.minValue) := by
  obtain ⟨-, -, hevaluates, hidentities⟩ := arithmetic_is_exact (α := Unit) (S := Memory)
  have hleast : Denotes 0 (Heap.initial (α := Unit)) (Memory.start [] ∅)
      (.int () Int64.minValue) (.int Int64.minValue) := denotes_int () _
  have hone : Denotes 0 (Heap.initial (α := Unit)) (Memory.start [] ∅) (.int () 1) (.int 1) :=
    denotes_int () _
  have hminusOne := (hevaluates 0 () _ (.int () 1) _ _ Heap.initial _ _ (Memory.start [] ∅) _ .null
    hone).1 .negate
  refine ⟨hleast, hminusOne, ?_⟩
  exact (hidentities 0 () () () () () _ _ _ _ _ _ hleast hminusOne).1 (by decide)

end MonkeyLang
