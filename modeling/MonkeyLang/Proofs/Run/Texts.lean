import MonkeyLang.Proofs.Run.Arithmetic
import MonkeyLang.Proofs.Run.Hashes
import MonkeyLang.Proofs.Token.Slices

/-!
# Texts

Texts are sequences of characters: so they are measured, so they are indexed, joined and
repeated.  Bytes only come in where a repetition is too large.

An index is a signed number, and so is the length that a program is told.  Neither wraps around
where it matters: an index that is past the end of a text is larger than the length of the text,
and a text that can be repeated at all within the limit is short.
-/

namespace MonkeyLang

/-! ## Members at signed indices -/

section

variable {β : Type} {xs ys : List β} {k : Int64}

theorem memberAt?_of_neg (hk : k.toInt < 0) : memberAt? xs k = none :=
  if_pos (Int64.lt_iff_toInt_lt.mpr hk)

theorem memberAt?_of_nonneg (hk : 0 ≤ k.toInt) : memberAt? xs k = xs[k.toInt.toNat]? := by
  refine if_neg ?_
  intro hneg
  exact absurd hk (Int.not_le.mpr (Int64.lt_iff_toInt_lt.mp hneg))

theorem memberAt?_ofNat {i : Nat} (hi : i < 2 ^ 63) : memberAt? xs (Int64.ofNat i) = xs[i]? := by
  have htoInt : (Int64.ofNat i).toInt = i := Int64.toInt_ofNat_of_lt hi
  rw [memberAt?_of_nonneg (by omega), htoInt, Int.toNat_natCast]

theorem memberAt?_eq_none_iff :
    memberAt? xs k = none ↔ k.toInt < 0 ∨ (xs.length : Int) ≤ k.toInt := by
  by_cases hk : k.toInt < 0
  · simp [memberAt?_of_neg hk, hk]
  · rw [memberAt?_of_nonneg (Int.not_lt.mp hk), List.getElem?_eq_none_iff]
    omega

theorem memberAt?_append_left (hk : k.toInt < xs.length) :
    memberAt? (xs ++ ys) k = memberAt? xs k := by
  by_cases hneg : k.toInt < 0
  · rw [memberAt?_of_neg hneg, memberAt?_of_neg hneg]
  · have hnonneg : 0 ≤ k.toInt := Int.not_lt.mp hneg
    rw [memberAt?_of_nonneg hnonneg, memberAt?_of_nonneg hnonneg, List.getElem?_append_left]
    omega

/-- The length of a list is no word in general; but where an index is beyond it, it is. -/
theorem toInt_sub_length (hk : (xs.length : Int) ≤ k.toInt) :
    (k - Int64.ofNat xs.length).toInt = k.toInt - xs.length := by
  have hlt := k.toInt_lt
  have hlength : (Int64.ofNat xs.length).toInt = xs.length :=
    Int64.toInt_ofNat_of_lt (by omega)
  rw [Int64.toInt_sub, hlength]
  exact Int.bmod_eq_of_le (by omega) (by omega)

theorem memberAt?_append_right (hk : (xs.length : Int) ≤ k.toInt) :
    memberAt? (xs ++ ys) k = memberAt? ys (k - Int64.ofNat xs.length) := by
  have hsub := toInt_sub_length hk
  have hnat : k.toInt.toNat - xs.length = (k.toInt - xs.length).toNat := by omega
  rw [memberAt?_of_nonneg (by omega), memberAt?_of_nonneg (by omega),
    List.getElem?_append_right (by omega), hsub, hnat]

theorem getElem?_flatten_replicate {n i : Nat} (hi : i < n * xs.length) :
    (List.replicate n xs).flatten[i]? = xs[i % xs.length]? := by
  induction n generalizing i with
  | zero =>
      rw [Nat.zero_mul] at hi
      exact absurd hi (Nat.not_lt_zero i)
  | succ n ih =>
      rw [List.replicate_succ, List.flatten_cons]
      by_cases hfirst : i < xs.length
      · rw [List.getElem?_append_left hfirst, Nat.mod_eq_of_lt hfirst]
      · rw [Nat.succ_mul] at hi
        have hle : xs.length ≤ i := Nat.not_lt.mp hfirst
        rw [List.getElem?_append_right hle, ih (by omega), ← Nat.mod_eq_sub_mod hle]

theorem memberAt?_flatten_replicate {n : Nat} (hlength : xs.length < 2 ^ 63) (hk : 0 ≤ k.toInt)
    (hlt : k.toInt < (n * xs.length : Nat)) :
    memberAt? (List.replicate n xs).flatten k = memberAt? xs (k % Int64.ofNat xs.length) := by
  have hmod : (k % Int64.ofNat xs.length).toInt = (k.toInt.toNat % xs.length : Nat) := by
    rw [Int64.toInt_mod, Int64.toInt_ofNat_of_lt hlength, Int.tmod_eq_emod_of_nonneg hk,
      Int.natCast_emod, Int.toNat_of_nonneg hk]
  rw [memberAt?_of_nonneg hk, memberAt?_of_nonneg (by omega), hmod, Int.toNat_natCast]
  exact getElem?_flatten_replicate (by omega)

end

/-! ## Characters of texts -/

/-- The character of a text at an index, as a text of its own, or `null`. -/
def characterAt (x : String) (k : Int64) : Value :=
  ((memberAt? x.toList k).map fun c => Value.str (String.singleton c)).getD .null

theorem characterAt_cases (x : String) (k : Int64) :
    (memberAt? x.toList k = none ∧ characterAt x k = .null) ∨
      ∃ c, memberAt? x.toList k = some c ∧ characterAt x k = .str (String.singleton c) := by
  cases hfound : memberAt? x.toList k with
  | none => exact Or.inl ⟨rfl, by rw [characterAt, hfound]; rfl⟩
  | some c => exact Or.inr ⟨c, rfl, by rw [characterAt, hfound]; rfl⟩

theorem characterAt_isPlain (x : String) (k : Int64) : (characterAt x k).IsPlain := by
  rcases characterAt_cases x k with ⟨-, hnull⟩ | ⟨c, -, hchar⟩
  · rw [hnull]
    trivial
  · rw [hchar]
    trivial

theorem characterAt_eq_null_iff {x : String} {k : Int64} :
    characterAt x k = .null ↔ k.toInt < 0 ∨ (x.length : Int) ≤ k.toInt := by
  rw [← String.length_toList, ← memberAt?_eq_none_iff]
  rcases characterAt_cases x k with ⟨hnone, hnull⟩ | ⟨c, hsome, hchar⟩
  · exact iff_of_true hnull hnone
  · simp [hsome, hchar]

theorem characterAt_append_left {x : String} {k : Int64} (y : String) (hk : k.toInt < x.length) :
    characterAt (x ++ y) k = characterAt x k := by
  rw [← String.length_toList] at hk
  rw [characterAt, String.toList_append, memberAt?_append_left hk, characterAt]

theorem characterAt_append_right {x : String} {k : Int64} (y : String)
    (hk : (x.length : Int) ≤ k.toInt) :
    characterAt (x ++ y) k = characterAt y (k - Int64.ofNat x.length) := by
  rw [← String.length_toList] at hk
  rw [characterAt, String.toList_append, memberAt?_append_right hk, String.length_toList,
    characterAt]

theorem length_le_utf8ByteSize (x : String) : x.length ≤ x.utf8ByteSize := by
  rw [← bytes_toList, ← String.length_toList]
  induction x.toList with
  | nil => exact Nat.zero_le _
  | cons c cs ih =>
      have hpos := c.utf8Size_pos
      rw [bytes_cons, List.length_cons]
      omega

theorem toList_repeated (x : String) (n : Nat) :
    (repeated x n).toList = (List.replicate n x.toList).flatten := by
  rw [repeated]
  by_cases hx : x = ""
  · simp [hx]
  · rw [if_neg hx]
    induction n with
    | zero => rfl
    | succ n ih =>
        rw [Nat.repeat, String.toList_append, ih, List.replicate_succ', List.flatten_append,
          List.flatten_singleton]

theorem repeated_zero (x : String) : repeated x 0 = "" := by
  rw [← String.toList_inj, toList_repeated]
  rfl

theorem length_repeated (x : String) (n : Nat) : (repeated x n).length = n * x.length := by
  rw [← String.length_toList, toList_repeated, List.length_flatten, List.map_replicate,
    List.sum_replicate_nat, String.length_toList]

/-- Something is in range of a repetition only if something is repeated. -/
theorem pos_of_lt_mul {k n : Int} {length : Nat} (hk : 0 ≤ k) (hlt : k < n * length) :
    0 < n ∧ 0 < length := by
  have hpos : 0 < n * length := Int.lt_of_le_of_lt hk hlt
  constructor
  · by_contra hn
    have hle := Int.mul_nonpos_of_nonpos_of_nonneg (Int.not_lt.mp hn) (Int.natCast_nonneg length)
    exact absurd hpos (Int.not_lt.mpr hle)
  · refine Nat.pos_of_ne_zero ?_
    intro hzero
    simp [hzero] at hpos

/-- A text that is repeated and is not too large then is short. -/
theorem length_lt_of_repetition {x : String} {n : Nat} (hn : 0 < n)
    (hsize : x.utf8ByteSize * n ≤ maxRepetitionBytes) : x.length < 2 ^ 63 := by
  have hlength := length_le_utf8ByteSize x
  have hbytes : x.utf8ByteSize ≤ x.utf8ByteSize * n := Nat.le_mul_of_pos_right _ hn
  rw [maxRepetitionBytes] at hsize
  omega

theorem ofNat_toInt_toNat {n : Int64} (hn : 0 ≤ n.toInt) : Int64.ofNat n.toInt.toNat = n := by
  rw [← Int64.ofInt_eq_ofNat, Int.toNat_of_nonneg hn, Int64.ofInt_toInt]

/-- The length of a repetition is a product of words, whatever has wrapped around in it. -/
theorem ofNat_length_repeated (x : String) {n : Int64} (hn : 0 ≤ n.toInt) :
    Int64.ofNat (repeated x n.toInt.toNat).length = n * Int64.ofNat x.length := by
  rw [length_repeated, Int64.ofNat_mul, ofNat_toInt_toNat hn]

/-- A character of a repetition is one of the text, of which the length is not zero, not even as a
word. -/
theorem characterAt_repeated {x : String} {k n : Int64}
    (hsize : x.utf8ByteSize * n.toInt.toNat ≤ maxRepetitionBytes) (hk : 0 ≤ k.toInt)
    (hlt : k.toInt < n.toInt * x.length) :
    Int64.ofNat x.length ≠ 0 ∧
      characterAt (repeated x n.toInt.toNat) k = characterAt x (k % Int64.ofNat x.length) := by
  obtain ⟨hn, hlength⟩ := pos_of_lt_mul hk hlt
  have hshort : x.length < 2 ^ 63 := length_lt_of_repetition (by omega) hsize
  constructor
  · intro hzero
    have htoInt := congrArg Int64.toInt hzero
    rw [Int64.toInt_ofNat_of_lt hshort, Int64.toInt_zero] at htoInt
    omega
  · have hrange : k.toInt < (n.toInt.toNat * x.toList.length : Nat) := by
      rwa [Int.natCast_mul, Int.toNat_of_nonneg (Int.le_of_lt hn), String.length_toList]
    rw [← String.length_toList] at hshort
    rw [characterAt, toList_repeated, memberAt?_flatten_replicate hshort hk hrange,
      String.length_toList, characterAt]

theorem repeatText_of_le {x : String} {n : Int64}
    (hsize : x.utf8ByteSize * n.toInt.toNat ≤ maxRepetitionBytes) :
    repeatText x n = .ok (.str (repeated x n.toInt.toNat)) :=
  if_pos hsize

/-! ## Evaluation -/

open RunOn

variable {α S : Type} [Host (StateM S)]

namespace Job

variable [Digest] {scope : ScopeId} {h h₁ h₂ h₃ : Heap α} {s s₁ s₂ s₃ : S} {a b i : Expr α}
  {v : Value}

theorem ends_exprs_nil : Ends ⟨.exprs scope [], h, s⟩ (.ok []) h s :=
  .of_ending (n := 1) rfl

theorem ends_exprs_cons {es : List (Expr α)} {vs : List Value}
    (ha : Ends ⟨.expr scope a, h, s⟩ (.ok v) h₁ s₁)
    (hes : Ends ⟨.exprs scope es, h₁, s₁⟩ (.ok vs) h₂ s₂) :
    Ends ⟨.exprs scope (a :: es), h, s⟩ (.ok (v :: vs)) h₂ s₂ := by
  obtain ⟨n, ha, hes⟩ := (ha.and hes).exists
  exact .of_ending (n := n + 1) ((ending_bind_of_ok ha).trans (ending_bind_of_ok hes))

theorem ends_call {t : α} {es : List (Expr α)} {f : Value} {vs : List Value}
    (ha : Ends ⟨.expr scope a, h, s⟩ (.ok f) h₁ s₁)
    (hes : Ends ⟨.exprs scope es, h₁, s₁⟩ (.ok vs) h₂ s₂)
    (hcall : Ends ⟨.apply f vs, h₂, s₂⟩ (.ok v) h₃ s₃) :
    Ends ⟨.expr scope (.call t a es), h, s⟩ v.settled h₃ s₃ := by
  obtain ⟨n, ⟨ha, hes⟩, hcall⟩ := ((ha.and hes).and hcall).exists
  refine .of_ending (n := n + 1) ((ending_bind_of_ok ha).trans ((ending_bind_of_ok hes).trans ?_))
  exact (ending_bind_of_ok hcall).trans (ending_settle _ _ _)

/-- Two expressions come to one value, and leave all as it is. -/
def Agree (scope : ScopeId) (h : Heap α) (s : S) (a b : Expr α) : Prop :=
  ∃ v, Denotes scope h s a v ∧ Denotes scope h s b v

theorem denotes_str (t : α) (x : String) : Denotes scope h s (.str t x) (.str x) :=
  ends_str

variable {x y : String} {k : Int64}

theorem Denotes.index (t : α) (ha : Denotes scope h s a (.str x))
    (hi : Denotes scope h s i (.int k)) : Denotes scope h s (.index t a i) (characterAt x k) :=
  ends_index ha hi rfl (characterAt_isPlain x k)

theorem Denotes.length (t : α) {len : Expr α} (ha : Denotes scope h s a (.str x))
    (hlen : Denotes scope h s len (.builtin .len)) :
    Denotes scope h s (.call t len [a]) (.int (Int64.ofNat x.length)) := by
  have hcall : Ends (S := S) ⟨.apply (.builtin .len) [.str x], h, s⟩
      (.ok (.int (Int64.ofNat x.length))) h s := ends_builtin_iff.mpr rfl
  exact ends_call hlen (ends_exprs_cons ha ends_exprs_nil) hcall

/-- The first characters of a text, indexed one by one. -/
def characters (t : α) (a : Expr α) (n : Nat) : List (Expr α) :=
  (List.range n).map fun i => .index t a (.int t (Int64.ofNat i))

/-- Expressions joined one after the other. -/
def joined (t : α) (es : List (Expr α)) : Expr α :=
  es.foldl (.binary t .add) (.str t "")

theorem denotes_joined_characters (t : α) (ha : Denotes scope h s a (.str x))
    (hx : x.length < 2 ^ 63) {n : Nat} (hn : n ≤ x.length) :
    Denotes scope h s (joined t (characters t a n)) (.str (String.ofList (x.toList.take n))) := by
  induction n with
  | zero => exact denotes_str t ""
  | succ n ih =>
      have hlt : n < x.toList.length := by
        rw [String.length_toList]
        exact hn
      have hchar : characterAt x (Int64.ofNat n) = .str (String.singleton x.toList[n]) := by
        rw [characterAt, memberAt?_ofNat (by omega), List.getElem?_eq_getElem hlt]
        rfl
      have hnext := ha.index t (denotes_int t (Int64.ofNat n))
      rw [hchar] at hnext
      have hjoined := (ih (Nat.le_of_succ_le hn)).binary t .add hnext rfl
      rw [String.singleton_eq_ofList, ← String.ofList_append,
        ← List.take_succ_eq_append_getElem hlt] at hjoined
      rw [characters, List.range_succ, List.map_append, joined, List.foldl_append]
      exact hjoined

end Job

open Job

/-- Expressions for two texts, an index and a count are put together, and the texts turn out to be
sequences of characters.  All nodes carry the same annotation, which no evaluation looks at. -/
structure ActAsSequences [Digest] (scope : ScopeId) (h : Heap α) (s : S) (t : α)
    (len a b i c : Expr α) (x y : String) (k n : Int64) : Prop where
  length : Denotes scope h s (.call t len [a]) (.int (Int64.ofNat x.length))
  /-- A text in memory has less than 2^63 bytes, and then its length is what a program is told. -/
  length_exact : x.utf8ByteSize < 2 ^ 63 → (Int64.ofNat x.length).toInt = x.length
  outside : Denotes scope h s (.index t a i) .null ↔ k.toInt < 0 ∨ (x.length : Int) ≤ k.toInt
  inside : 0 ≤ k.toInt → k.toInt < x.length →
    ∃ z, Denotes scope h s (.index t a i) (.str z) ∧ z.length = 1
  /-- The characters at all indices, one after the other, are the text. -/
  characters : x.utf8ByteSize < 2 ^ 63 →
    Denotes scope h s (joined t (characters t a x.length)) (.str x)
  length_add : Agree scope h s (.call t len [.binary t .add a b])
    (.binary t .add (.call t len [a]) (.call t len [b]))
  index_add_left : 0 ≤ k.toInt → k.toInt < x.length →
    Agree scope h s (.index t (.binary t .add a b) i) (.index t a i)
  index_add_right : (x.length : Int) ≤ k.toInt →
    Agree scope h s (.index t (.binary t .add a b) i)
      (.index t b (.binary t .subtract i (.call t len [a])))
  /-- A text can stand before its count or behind it, whatever comes of it. -/
  commutes : ∀ o h' s', Ends ⟨.expr scope (.binary t .multiply a c), h, s⟩ o h' s' ↔
    Ends ⟨.expr scope (.binary t .multiply c a), h, s⟩ o h' s'
  none_repeated : n.toInt ≤ 0 → Denotes scope h s (.binary t .multiply a c) (.str "")
  repeated : x.utf8ByteSize * n.toInt.toNat ≤ maxRepetitionBytes →
    ∃ z, Denotes scope h s (.binary t .multiply a c) (.str z)
  length_repeated : 0 < n.toInt → x.utf8ByteSize * n.toInt.toNat ≤ maxRepetitionBytes →
    Agree scope h s (.call t len [.binary t .multiply a c])
      (.binary t .multiply c (.call t len [a]))
  index_repeated : x.utf8ByteSize * n.toInt.toNat ≤ maxRepetitionBytes → 0 ≤ k.toInt →
    k.toInt < n.toInt * x.length →
      Agree scope h s (.index t (.binary t .multiply a c) i)
        (.index t a (.binary t .modulo i (.call t len [a])))
  /-- What is too large is refused. -/
  refused : maxRepetitionBytes < x.utf8ByteSize * n.toInt.toNat →
    Ends ⟨.expr scope (.binary t .multiply a c), h, s⟩
      (.error (.error ("string repetition too large: " ++ n.toInt.toNat.repr))) h s

/-- Texts are sequences of characters under `len`, indices, sums and repetitions, for every text,
every index and every count. -/
theorem texts_act_as_sequences [Digest] {scope : ScopeId} {h : Heap α} {s : S} (t : α)
    {len a b i c : Expr α} {x y : String} {k n : Int64}
    (hlen : Denotes scope h s len (.builtin .len)) (ha : Denotes scope h s a (.str x))
    (hb : Denotes scope h s b (.str y)) (hi : Denotes scope h s i (.int k))
    (hc : Denotes scope h s c (.int n)) :
    ActAsSequences scope h s t len a b i c x y k n := by
  have hfits : x.utf8ByteSize < 2 ^ 63 → x.length < 2 ^ 63 :=
    fun hx => Nat.lt_of_le_of_lt (length_le_utf8ByteSize x) hx
  have hsum : Denotes scope h s (.binary t .add a b) (.str (x ++ y)) := ha.binary t .add hb rfl
  have hmultiple : ∀ hsize : x.utf8ByteSize * n.toInt.toNat ≤ maxRepetitionBytes,
      Denotes scope h s (.binary t .multiply a c) (.str (MonkeyLang.repeated x n.toInt.toNat)) :=
    fun hsize => ha.binary t .multiply hc (repeatText_of_le hsize)
  constructor
  case length => exact ha.length t hlen
  case length_exact => exact fun hx => Int64.toInt_ofNat_of_lt (hfits hx)
  case outside =>
    rw [← characterAt_eq_null_iff]
    constructor
    · intro hnull
      exact (Except.ok.inj ((ha.index t hi).unique hnull).1)
    · intro hnull
      rw [← hnull]
      exact ha.index t hi
  case inside =>
    intro hnonneg hlt
    have hfound := ha.index t hi
    rcases characterAt_cases x k with ⟨hnone, -⟩ | ⟨z, -, hchar⟩
    · rw [memberAt?_eq_none_iff, String.length_toList] at hnone
      omega
    · rw [hchar] at hfound
      exact ⟨String.singleton z, hfound, String.length_singleton⟩
  case characters =>
    intro hx
    have hall := denotes_joined_characters t ha (hfits hx) (Nat.le_refl x.length)
    rwa [← String.length_toList, List.take_length, String.ofList_toList] at hall
  case length_add =>
    refine ⟨_, hsum.length t hlen, ?_⟩
    rw [String.length_append, Int64.ofNat_add]
    exact (ha.length t hlen).binary t .add (hb.length t hlen) rfl
  case index_add_left =>
    intro _ hlt
    refine ⟨_, hsum.index t hi, ?_⟩
    rw [characterAt_append_left y hlt]
    exact ha.index t hi
  case index_add_right =>
    intro hle
    refine ⟨_, hsum.index t hi, ?_⟩
    rw [characterAt_append_right y hle]
    exact hb.index t (hi.binary t .subtract (ha.length t hlen) rfl)
  case commutes =>
    intro o h' s'
    have hleft := ends_binary t .multiply ha hc
    have hright := ends_binary t .multiply hc ha
    constructor
    · intro hends
      obtain ⟨rfl, rfl, rfl⟩ := hleft.unique hends
      exact hright
    · intro hends
      obtain ⟨rfl, rfl, rfl⟩ := hright.unique hends
      exact hleft
  case none_repeated =>
    intro hn
    have hzero : n.toInt.toNat = 0 := Int.toNat_of_nonpos hn
    have hempty := hmultiple (by rw [hzero]; exact Nat.zero_le _)
    rwa [hzero, repeated_zero] at hempty
  case repeated => exact fun hsize => ⟨_, hmultiple hsize⟩
  case length_repeated =>
    intro hn hsize
    refine ⟨_, (hmultiple hsize).length t hlen, ?_⟩
    rw [ofNat_length_repeated x (Int.le_of_lt hn)]
    exact hc.binary t .multiply (ha.length t hlen) rfl
  case index_repeated =>
    intro hsize hnonneg hlt
    obtain ⟨hne, hchar⟩ := characterAt_repeated hsize hnonneg hlt
    refine ⟨_, (hmultiple hsize).index t hi, ?_⟩
    rw [hchar]
    exact ha.index t (hi.binary t .modulo (ha.length t hlen) (modulo_apply k hne))
  case refused =>
    intro hlarge
    have hends := ends_binary t .multiply ha hc
    have hrefused : BinaryOp.multiply.apply (.str x) (.int n) =
        .error (.repetitionTooLarge n.toInt.toNat) := if_neg (Nat.not_le.mpr hlarge)
    rw [hrefused] at hends
    exact hends

/-- A text of three characters and four bytes, joined with another and repeated three times. -/
theorem accented_texts_act_as_sequences :
    Denotes 0 (Heap.initial (α := Unit)) (Memory.start [] ∅) (.ident ⟨(), "len"⟩)
        (.builtin .len) ∧
      ActAsSequences 0 (Heap.initial (α := Unit)) (Memory.start [] ∅) () (.ident ⟨(), "len"⟩)
        (.str () "día") (.str () "né") (.int () 4) (.int () 3) "día" "né" 4 3 := by
  have hlen : Denotes 0 (Heap.initial (α := Unit)) (Memory.start [] ∅) (.ident ⟨(), "len"⟩)
      (.builtin .len) := .of_ending (n := 1) rfl
  refine ⟨hlen, ?_⟩
  exact texts_act_as_sequences () hlen (denotes_str () _) (denotes_str () _) (denotes_int () _)
    (denotes_int () _)

end MonkeyLang
