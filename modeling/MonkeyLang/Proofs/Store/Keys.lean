import MonkeyLang.Store.Table

/-!
# Keys that are told apart

A key of a hash is known by its kind and by 64 bits: those of a number or a truth value
itself, and those of the digest of a text.  So numbers and truth values are told apart from
each other and from texts, and texts are told apart as far as their digests are, whatever
the digest is.

Of the pairs that are put into a table one after the other, the last one is found whose key is
not told apart from the key that is asked for.
-/

namespace MonkeyLang

variable [Digest]

namespace Key

/-- The 64 bits that stand for a key. -/
def word : Key → UInt64
  | str s => Digest.ofText s
  | k => k.bits?.getD 0

/-- What a key is known by in a hash. -/
def hashKey (k : Key) : ValueKind × UInt64 :=
  (k.value.kind, k.word)

/-- Keys that are not told apart: equal keys, and texts of one digest. -/
inductive Alike : Key → Key → Prop
  | same (k) : Alike k k
  | texts {s t} (h : Digest.ofText s = Digest.ofText t) : Alike (str s) (str t)

theorem alike_iff_of_texts {k k' : Key}
    (h : ∀ s t, k = str s → k' = str t → Digest.ofText s = Digest.ofText t → s = t) :
    k.Alike k' ↔ k = k' := by
  constructor
  · rintro (_ | hdigest)
    · rfl
    · rw [h _ _ rfl rfl hdigest]
  · rintro rfl
    exact .same k

theorem fingerprint_eq_iff {k k' : Key} : k.fingerprint = k'.fingerprint ↔ k.Alike k' := by
  constructor
  · intro h
    cases k with
    | bool b => cases k' <;> cases h; exact .same _
    | int n => cases k' <;> cases h; exact .same _
    | str s =>
        cases k' with
        | str t => exact .texts (Fingerprint.str.inj h)
        | bool | int => cases h
  · rintro (_ | h)
    · rfl
    · exact congrArg Fingerprint.str h

/-- Keys are known by the same if and only if they are not told apart. -/
theorem hashKey_eq_iff {k k' : Key} : k.hashKey = k'.hashKey ↔ k.Alike k' := by
  constructor
  · intro h
    obtain ⟨hkind, hword⟩ := Prod.mk.inj h
    cases k with
    | bool b =>
        cases k' with
        | bool b' => cases b <;> cases b' <;> first | exact .same _ | cases hword
        | int | str => cases hkind
    | int n =>
        cases k' with
        | int n' =>
            obtain rfl : n = n' := congrArg Int64.ofUInt64 hword
            exact .same _
        | bool | str => cases hkind
    | str s =>
        cases k' with
        | str t => exact .texts hword
        | bool | int => cases hkind
  · rintro (_ | h)
    · rfl
    · exact congrArg (Prod.mk ValueKind.string) h

instance (k k' : Key) : Decidable (k.Alike k') :=
  decidable_of_iff _ fingerprint_eq_iff

end Key

/-- The value of the last of some pairs whose key is not told apart from `k`. -/
def lastUnder (kvs : List (Key × Value)) (k : Key) : Option Value :=
  ((kvs.filter fun p => p.1.Alike k).getLast?).map (·.2)

theorem lastUnder_cons (p : Key × Value) (kvs : List (Key × Value)) (k : Key) :
    lastUnder (p :: kvs) k =
      (lastUnder kvs k).or (if p.1.Alike k then some p.2 else none) := by
  by_cases h : p.1.Alike k
  · simp only [lastUnder, List.filter_cons, h, decide_true, if_true, List.getLast?_cons]
    cases (kvs.filter fun p => p.1.Alike k).getLast? <;> rfl
  · simp [lastUnder, h]

theorem mem_of_lastUnder {k : Key} {kvs : List (Key × Value)} {v : Value}
    (h : lastUnder kvs k = some v) : ∃ p ∈ kvs, p.1.Alike k ∧ p.2 = v := by
  obtain ⟨p, hp, hv⟩ := Option.map_eq_some_iff.mp h
  obtain ⟨hmem, halike⟩ := List.mem_filter.mp (List.mem_of_getLast? hp)
  exact ⟨p, hmem, of_decide_eq_true halike, hv⟩

/-- Where no two different texts of one digest meet, the last pair with the key itself counts. -/
theorem lastUnder_of_texts {k : Key} {kvs : List (Key × Value)}
    (h : ∀ p ∈ kvs, ∀ s t, p.1 = .str s → k = .str t →
      Digest.ofText s = Digest.ofText t → s = t) :
    lastUnder kvs k = ((kvs.filter fun p => p.1 = k).getLast?).map (·.2) := by
  have hfilter : kvs.filter (fun p => p.1.Alike k) = kvs.filter fun p => p.1 = k :=
    List.filter_congr fun p hp => decide_eq_decide.mpr (Key.alike_iff_of_texts (h p hp))
  rw [lastUnder, hfilter]

namespace Table

/-- The table with pairs put in one after the other. -/
def fill (t : Table) (kvs : List (Key × Value)) : Table :=
  kvs.foldl (fun t p => t.insert p.1 p.2) t

theorem find?_fill (t : Table) (kvs : List (Key × Value)) (k : Key) :
    (t.fill kvs).find? k = (lastUnder kvs k).or (t.find? k) := by
  induction kvs generalizing t with
  | nil => rfl
  | cons p kvs ih =>
      have hstep : (t.fill (p :: kvs)).find? k = ((t.insert p.1 p.2).fill kvs).find? k := rfl
      rw [hstep, ih, lastUnder_cons, find?_insert, Option.or_assoc]
      simp only [Key.fingerprint_eq_iff]
      split <;> rfl

end Table

end MonkeyLang
