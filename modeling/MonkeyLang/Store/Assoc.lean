/-!
# Finite maps as lists of entries

A finite map is kept as its entries in the order in which their keys were
first inserted.  Inserting under a known key replaces the value in place.  The
view of a map is `find?`, and `find?_insert` says all there is to say about
inserting.
-/

namespace MonkeyLang

/-- A finite map, as a list of entries. -/
structure Assoc (κ ν : Type) where
  entries : List (κ × ν)
  deriving DecidableEq, Repr

namespace Assoc

variable {κ ν : Type}

/-- The map without entries. -/
def empty : Assoc κ ν := ⟨[]⟩

instance : EmptyCollection (Assoc κ ν) := ⟨empty⟩

instance : Inhabited (Assoc κ ν) := ⟨empty⟩

/-- The number of entries. -/
def size (m : Assoc κ ν) : Nat := m.entries.length

/-- The keys, in the order in which they were first inserted. -/
def keys (m : Assoc κ ν) : List κ := m.entries.map (·.1)

/-- The values, in the order of the keys. -/
def values (m : Assoc κ ν) : List ν := m.entries.map (·.2)

variable [DecidableEq κ]

/-- The value under a key in a list of entries. -/
def findIn (k : κ) : List (κ × ν) → Option ν
  | [] => none
  | (k', v) :: rest => if k' = k then some v else findIn k rest

/-- A list of entries in which the key has the value. -/
def insertIn (k : κ) (v : ν) : List (κ × ν) → List (κ × ν)
  | [] => [(k, v)]
  | (k', v') :: rest =>
    if k' = k then (k', v) :: rest else (k', v') :: insertIn k v rest

/-- The value under a key. -/
def find? (m : Assoc κ ν) (k : κ) : Option ν :=
  findIn k m.entries

/-- The map in which the key has the value. -/
def insert (m : Assoc κ ν) (k : κ) (v : ν) : Assoc κ ν :=
  ⟨insertIn k v m.entries⟩

/-- The map of a list of entries, of which the last under each key counts. -/
def ofList (entries : List (κ × ν)) : Assoc κ ν :=
  entries.foldl (fun m e => m.insert e.1 e.2) empty

@[simp]
theorem find?_empty (k : κ) : (empty : Assoc κ ν).find? k = none := rfl

theorem find?_insert (m : Assoc κ ν) (k k' : κ) (v : ν) :
    (m.insert k v).find? k' = if k = k' then some v else m.find? k' := by
  obtain ⟨entries⟩ := m
  simp only [find?, insert]
  induction entries with
  | nil => rfl
  | cons e rest ih =>
    obtain ⟨k₀, v₀⟩ := e
    by_cases h : k₀ = k
    · subst h
      by_cases h' : k₀ = k' <;> simp [insertIn, findIn, h']
    · by_cases h' : k₀ = k'
      · subst h'
        simp [insertIn, findIn, h, Ne.symm h]
      · simp [insertIn, findIn, h, h', ih]

theorem mem_keys_insert (m : Assoc κ ν) (k k' : κ) (v : ν) :
    k' ∈ (m.insert k v).keys ↔ k' = k ∨ k' ∈ m.keys := by
  obtain ⟨entries⟩ := m
  simp only [keys, insert]
  induction entries with
  | nil => simp [insertIn]
  | cons e rest ih =>
    obtain ⟨k₀, v₀⟩ := e
    by_cases h : k₀ = k
    · subst h
      simp [insertIn]
    · simp only [insertIn, h, if_false, List.map_cons, List.mem_cons, ih]
      exact or_left_comm

/-- Inserting keeps the keys distinct. -/
theorem nodup_keys_insert {m : Assoc κ ν} (k : κ) (v : ν) (h : m.keys.Nodup) :
    (m.insert k v).keys.Nodup := by
  obtain ⟨entries⟩ := m
  induction entries with
  | nil => simp [keys, insert, insertIn]
  | cons e rest ih =>
    obtain ⟨k₀, v₀⟩ := e
    have hrest : ((⟨rest⟩ : Assoc κ ν).insert k v).keys.Nodup :=
      ih (List.nodup_cons.mp h).2
    by_cases hk : k₀ = k
    · simpa [keys, insert, insertIn, hk] using h
    · have hnot : k₀ ∉ ((⟨rest⟩ : Assoc κ ν).insert k v).keys := by
        rw [mem_keys_insert]
        exact fun hor => hor.elim hk (List.nodup_cons.mp h).1
      simpa [keys, insert, insertIn, hk] using ⟨by simpa [keys, insert] using hnot, hrest⟩

end Assoc

end MonkeyLang
