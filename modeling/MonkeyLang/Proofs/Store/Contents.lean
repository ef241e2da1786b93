import MonkeyLang.Run.Operator

/-!
# What is in maps, tables and lists

What is found somewhere was there, and what is there after something was put in
was there before or is what was put in.
-/

namespace MonkeyLang

namespace Assoc

variable {κ ν : Type} [DecidableEq κ]

theorem mem_entries_of_find? {m : Assoc κ ν} {k : κ} {v : ν} (h : m.find? k = some v) :
    (k, v) ∈ m.entries := by
  obtain ⟨entries⟩ := m
  simp only [find?] at h ⊢
  induction entries with
  | nil => cases h
  | cons e rest ih =>
      obtain ⟨k', w⟩ := e
      rw [findIn] at h
      by_cases hk : k' = k
      · rw [if_pos hk] at h
        obtain rfl := Option.some.inj h
        exact hk ▸ List.mem_cons_self
      · rw [if_neg hk] at h
        exact List.mem_cons_of_mem _ (ih h)

theorem mem_values_of_find? {m : Assoc κ ν} {k : κ} {v : ν} (h : m.find? k = some v) :
    v ∈ m.values :=
  List.mem_map.mpr ⟨_, mem_entries_of_find? h, rfl⟩

theorem mem_values_insert {m : Assoc κ ν} {k : κ} {v w : ν} (h : w ∈ (m.insert k v).values) :
    w = v ∨ w ∈ m.values := by
  obtain ⟨entries⟩ := m
  simp only [insert, values] at h ⊢
  induction entries with
  | nil => exact Or.inl (List.mem_singleton.mp h)
  | cons e rest ih =>
      obtain ⟨k', u⟩ := e
      rw [insertIn] at h
      split at h
      · rcases List.mem_cons.mp h with h | h
        · exact Or.inl h
        · exact Or.inr (List.mem_cons_of_mem _ h)
      · rcases List.mem_cons.mp h with h | h
        · exact Or.inr (h ▸ List.mem_cons_self)
        · exact (ih h).imp_right (List.mem_cons_of_mem _)

theorem mem_values_foldl_insert {entries : List (κ × ν)} {m : Assoc κ ν} {w : ν}
    (h : w ∈ (entries.foldl (fun m e => m.insert e.1 e.2) m).values) :
    w ∈ m.values ∨ ∃ e ∈ entries, e.2 = w := by
  induction entries generalizing m with
  | nil => exact Or.inl h
  | cons e rest ih =>
      rcases ih h with hm | ⟨e', he', hw⟩
      · rcases mem_values_insert hm with rfl | hm
        · exact Or.inr ⟨e, List.mem_cons_self, rfl⟩
        · exact Or.inl hm
      · exact Or.inr ⟨e', List.mem_cons_of_mem _ he', hw⟩

theorem mem_values_ofList {entries : List (κ × ν)} {w : ν} (h : w ∈ (ofList entries).values) :
    ∃ e ∈ entries, e.2 = w := by
  rcases mem_values_foldl_insert h with hempty | he
  · cases hempty
  · exact he

theorem exists_find?_of_mem_keys {m : Assoc κ ν} {k : κ} (h : k ∈ m.keys) :
    ∃ v, m.find? k = some v := by
  obtain ⟨entries⟩ := m
  simp only [find?, keys] at h ⊢
  induction entries with
  | nil => cases h
  | cons e rest ih =>
      obtain ⟨k', v⟩ := e
      rw [findIn]
      split
      · exact ⟨v, rfl⟩
      · next hne =>
          rcases List.mem_cons.mp h with rfl | h
          · exact (hne rfl).elim
          · exact ih h

/-- An entry is found by its key if no other entry has the key. -/
theorem find?_of_mem_entries {m : Assoc κ ν} (hm : m.keys.Nodup) {k : κ} {v : ν}
    (h : (k, v) ∈ m.entries) : m.find? k = some v := by
  obtain ⟨entries⟩ := m
  simp only [find?, keys] at h hm ⊢
  induction entries with
  | nil => cases h
  | cons e rest ih =>
      obtain ⟨k', w⟩ := e
      obtain ⟨hfresh, hrest⟩ := List.nodup_cons.mp hm
      rw [findIn]
      rcases List.mem_cons.mp h with heq | h
      · obtain ⟨rfl, rfl⟩ := Prod.mk.inj heq
        rw [if_pos rfl]
      · have hk : k' ≠ k := by
          rintro rfl
          exact hfresh (List.mem_map.mpr ⟨_, h, rfl⟩)
        rw [if_neg hk]
        exact ih hrest h

/-- Inserting under a key that is there changes the value only. -/
theorem map_entries_insert {β : Type} {m : Assoc κ ν} {k : κ} {v old : ν}
    (h : m.find? k = some old) {f : κ × ν → β} (hf : f (k, v) = f (k, old)) :
    (m.insert k v).entries.map f = m.entries.map f := by
  obtain ⟨entries⟩ := m
  simp only [find?, insert] at h ⊢
  induction entries with
  | nil => cases h
  | cons e rest ih =>
      obtain ⟨k', w⟩ := e
      rw [findIn] at h
      rw [insertIn]
      by_cases hk : k' = k
      · subst hk
        rw [if_pos rfl] at h
        obtain rfl := Option.some.inj h
        rw [if_pos rfl, List.map_cons, List.map_cons, hf]
      · rw [if_neg hk] at h
        rw [if_neg hk, List.map_cons, List.map_cons, ih h]

/-- Inserting under a new key puts an entry behind the others. -/
theorem entries_insert_of_new {m : Assoc κ ν} {k : κ} (h : m.find? k = none) (v : ν) :
    (m.insert k v).entries = m.entries ++ [(k, v)] := by
  obtain ⟨entries⟩ := m
  simp only [find?, insert] at h ⊢
  induction entries with
  | nil => rfl
  | cons e rest ih =>
      obtain ⟨k', w⟩ := e
      rw [findIn] at h
      rw [insertIn]
      by_cases hk : k' = k
      · rw [if_pos hk] at h
        cases h
      · rw [if_neg hk] at h
        rw [if_neg hk, ih h, List.cons_append]

theorem mem_keys_foldl_insert (entries : List (κ × ν)) (m : Assoc κ ν) (k : κ) :
    k ∈ (entries.foldl (fun m e => m.insert e.1 e.2) m).keys ↔
      k ∈ m.keys ∨ k ∈ entries.map (·.1) := by
  induction entries generalizing m with
  | nil => simp
  | cons e rest ih =>
      rw [List.foldl_cons, ih, mem_keys_insert, List.map_cons, List.mem_cons, or_left_comm,
        or_assoc]

theorem mem_keys_ofList {entries : List (κ × ν)} {k : κ} :
    k ∈ (ofList entries).keys ↔ k ∈ entries.map (·.1) := by
  rw [ofList, mem_keys_foldl_insert]
  exact or_iff_right List.not_mem_nil

end Assoc

namespace Table

variable [Digest]

theorem exists_pair_of_find? {t : Table} {k : Key} {v : Value} (h : t.find? k = some v) :
    ∃ p ∈ t.pairs, p.2 = v := by
  obtain ⟨p, hp, rfl⟩ := Option.map_eq_some_iff.mp h
  exact ⟨p, Assoc.mem_values_of_find? hp, rfl⟩

theorem mem_pairs_insert {t : Table} {k : Key} {v : Value} {p : Key × Value}
    (h : p ∈ (t.insert k v).pairs) : p = (k, v) ∨ p ∈ t.pairs :=
  Assoc.mem_values_insert h

end Table

theorem mem_of_memberAt? {α : Type} {xs : List α} {i : Int64} {x : α}
    (h : memberAt? xs i = some x) : x ∈ xs := by
  rw [memberAt?] at h
  split at h
  · cases h
  · exact List.mem_of_getElem? h

/-- The value of a parameter is an argument. -/
theorem mem_args_of_mem_values {params : List String} {args : List Value} {v : Value}
    (h : v ∈ (Assoc.ofList (params.zip args)).values) : v ∈ args := by
  obtain ⟨p, hp, rfl⟩ := Assoc.mem_values_ofList h
  exact (List.of_mem_zip hp).2

/-- A parameter is found, with an argument for its value. -/
theorem find?_params {params : List String} {args : List Value}
    (hlen : params.length = args.length) {x : String} (hx : x ∈ params) :
    ∃ v ∈ args, (Assoc.ofList (params.zip args)).find? x = some v := by
  have hkey : x ∈ (Assoc.ofList (params.zip args)).keys := by
    rw [Assoc.mem_keys_ofList]
    change x ∈ (params.zip args).map Prod.fst
    rwa [List.map_fst_zip (Nat.le_of_eq hlen)]
  obtain ⟨v, hv⟩ := Assoc.exists_find?_of_mem_keys hkey
  exact ⟨v, mem_args_of_mem_values (Assoc.mem_values_of_find? hv), hv⟩

end MonkeyLang
