import MonkeyLang.Proofs.Run.Objects
import MonkeyLang.Proofs.Run.Settled
import MonkeyLang.Proofs.Store.Keys

/-!
# Hashes as maps

The pairs of a hash are evaluated in turn and put into a table, and the table is an object
that lasts.  So whenever the hash is indexed, the last of the pairs is found whose key is not
told apart from the index, whatever has been done in the meantime.

This would be the law of a finite map, were it not that two texts can share their digest.
-/

namespace MonkeyLang

open RunOn

variable {α S : Type} [Host (StateM S)]

namespace Job

variable [Digest]

/-- Pairs of expressions are evaluated in turn, each key before its value, and what the keys
come to are keys of hashes. -/
inductive PairsEnd (scope : ScopeId) : List (Expr α × Expr α) → Heap α → S →
    List (Key × Value) → Heap α → S → Prop
  | nil {h s} : PairsEnd scope [] h s [] h s
  | cons {k e ps h s key h₁ s₁ v h₂ s₂ kvs h' s'}
      (hk : Ends ⟨.expr scope k, h, s⟩ (.ok (Key.value key)) h₁ s₁)
      (he : Ends ⟨.expr scope e, h₁, s₁⟩ (.ok v) h₂ s₂)
      (hps : PairsEnd scope ps h₂ s₂ kvs h' s') :
      PairsEnd scope ((k, e) :: ps) h s ((key, v) :: kvs) h' s'

variable {scope : ScopeId} {ps : List (Expr α × Expr α)} {h h₁ h₂ h' : Heap α} {s s₁ s₂ s' : S}
  {kvs : List (Key × Value)}

/-! ## The literal of a hash -/

theorem ends_pairs_iff {sofar table : Table} :
    Ends ⟨.pairs scope ps sofar, h, s⟩ (.ok table) h' s' ↔
      ∃ kvs, PairsEnd scope ps h s kvs h' s' ∧ sofar.fill kvs = table := by
  constructor
  · intro hends
    induction ps generalizing h s sofar with
    | nil =>
        obtain ⟨n, hn⟩ := hends.exists_succ
        cases hn
        exact ⟨[], .nil, rfl⟩
    | cons p ps ih =>
        obtain ⟨k, e⟩ := p
        obtain ⟨n, hn⟩ := hends.exists_succ
        obtain ⟨kv, h₁, s₁, hk, hn⟩ := ending_bind_eq_ok.mp hn
        cases hkey : kv.key? with
        | none =>
            rw [hkey] at hn
            cases hn
        | some key =>
            rw [hkey] at hn
            obtain ⟨v, h₂, s₂, he, hn⟩ := ending_bind_eq_ok.mp hn
            obtain ⟨kvs, hps, hfill⟩ := ih (.of_ending hn)
            obtain rfl := Value.value_of_key? hkey
            exact ⟨(key, v) :: kvs, .cons (.of_ending hk) (.of_ending he) hps, hfill⟩
  · rintro ⟨kvs, hps, rfl⟩
    induction hps generalizing sofar with
    | nil => exact .of_ending (n := 1) rfl
    | @cons k e ps h s key h₁ s₁ v h₂ s₂ kvs h' s' hk he _ ih =>
        obtain ⟨n, ⟨hk, he⟩, hps⟩ := ((hk.and he).and (@ih (sofar.insert key v))).exists
        refine .of_ending (n := n + 1) ((ending_bind_of_ok hk).trans ?_)
        rw [Key.key?_value]
        exact (ending_bind_of_ok he).trans hps

theorem ends_literal_iff {t : α} {w : Value} :
    Ends ⟨.expr scope (.hash t ps), h, s⟩ (.ok w) h' s' ↔
      ∃ kvs h₁, PairsEnd scope ps h s kvs h₁ s' ∧
        h₁.Makes (.hash (Table.empty.fill kvs)) w h' := by
  rw [ends_hash_iff]
  constructor
  · rintro ⟨table, h₁, hpairs, hmakes⟩
    obtain ⟨kvs, hps, rfl⟩ := ends_pairs_iff.mp hpairs
    exact ⟨kvs, h₁, hps, hmakes⟩
  · rintro ⟨kvs, h₁, hps, hmakes⟩
    exact ⟨_, h₁, ends_pairs_iff.mpr ⟨kvs, hps, rfl⟩, hmakes⟩

theorem PairsEnd.isPlain (hps : PairsEnd scope ps h s kvs h' s') : ∀ p ∈ kvs, p.2.IsPlain := by
  induction hps with
  | nil => exact fun p hp => absurd hp List.not_mem_nil
  | cons _ he _ ih =>
      intro p hp
      rcases List.mem_cons.mp hp with rfl | hp
      · exact he.isPlain
      · exact ih p hp

theorem ends_str {t : α} {x : String} :
    Ends ⟨.expr scope (.str t x), h, s⟩ (.ok (Key.str x).value) h s :=
  .of_ending (n := 1) rfl

theorem ends_int {t : α} {k : Int64} :
    Ends ⟨.expr scope (.int t k), h, s⟩ (.ok (Key.int k).value) h s :=
  .of_ending (n := 1) rfl

/-! ## Indexing -/

theorem ends_index {t : α} {l i : Expr α} {v w x : Value}
    (hl : Ends ⟨.expr scope l, h, s⟩ (.ok v) h₁ s₁)
    (hi : Ends ⟨.expr scope i, h₁, s₁⟩ (.ok w) h₂ s₂) (hx : h₂.index v w = .ok x)
    (hplain : x.IsPlain) : Ends ⟨.expr scope (.index t l i), h, s⟩ (.ok x) h₂ s₂ := by
  obtain ⟨n, hl, hi⟩ := (hl.and hi).exists
  refine .of_ending (n := n + 1) ((ending_bind_of_ok hl).trans ((ending_bind_of_ok hi).trans ?_))
  have hfound : (Run.ofExcept (h₂.index v w) : RunOn (Heap α) (StateM S) Value).ending h₂ s₂ =
      ⟨some (.ok x), h₂, s₂⟩ := by
    rw [hx]
    rfl
  refine (ending_bind_of_ok (ending_see h₂ s₂ _)).trans ((ending_bind_of_ok hfound).trans ?_)
  rw [ending_settle, hplain.settled]

omit [Host (StateM S)] in
theorem index_hash {id : ObjectId} {table : Table} (ho : h.objects[id]? = some (.hash table))
    (k : Key) : h.index (.hash id) k.value = .ok ((table.find? k).getD .null) := by
  have htable : h.table id = table := by rw [Heap.table, ho]
  cases k <;> rw [Heap.index, Key.key?_value, htable]

/-- Wherever an expression comes to the value `w`, and then another one, its index, to a key,
with the objects of `h` having lasted, indexing comes to what `find` says of the key, or to
`null` if it says nothing. -/
def Finds (S : Type) [Host (StateM S)] (h : Heap α) (w : Value) (find : Key → Option Value) :
    Prop :=
  ∀ (scope : ScopeId) (t : α) (l i : Expr α) (k : Key) (h₀ h₁ h₂ : Heap α) (s₀ s₁ s₂ : S),
    Ends ⟨.expr scope l, h₀, s₀⟩ (.ok w) h₁ s₁ →
    Ends ⟨.expr scope i, h₁, s₁⟩ (.ok k.value) h₂ s₂ → h.ObjectsLast h₂ →
      Ends ⟨.expr scope (.index t l i), h₀, s₀⟩ (.ok ((find k).getD .null)) h₂ s₂

theorem PairsEnd.finds (hps : PairsEnd scope ps h s kvs h₁ s') {w : Value}
    (hmakes : h₁.Makes (.hash (Table.empty.fill kvs)) w h') :
    Finds S h' w (lastUnder kvs) := by
  intro scope t l i k h₀ h₂ h₃ s₀ s₂ s₃ hl hi hlast
  have hobject := hlast.hash _ _ hmakes.object
  rw [hmakes.value] at hl
  refine ends_index hl hi ?_ ?_
  · rw [Object.valueAt, index_hash hobject, Table.find?_fill, Table.find?_empty, Option.or_none]
  · cases hfound : lastUnder kvs k with
    | none => trivial
    | some v =>
        obtain ⟨p, hp, -, rfl⟩ := mem_of_lastUnder hfound
        exact hps.isPlain p hp

end Job

open Job

/-- Whatever the digest is, the hashes of a program find the last of their pairs whose key is not
told apart from the index, or `null` if there is none.  Keys are told apart by kind and content, but
for texts, which are told apart by their digests; so where no two different texts of one digest
meet, a hash is a finite map. -/
theorem hashes_find_last_alike [Digest] :
    (∀ k k' : Key, (k.hashKey = k'.hashKey ↔ k.Alike k') ∧
      (k.fingerprint = k'.fingerprint ↔ k.Alike k')) ∧
    (∀ scope (t : α) ps (h h' : Heap α) (s s' : S) w,
      Ends ⟨.expr scope (.hash t ps), h, s⟩ (.ok w) h' s' →
        ∃ kvs h₁, PairsEnd scope ps h s kvs h₁ s') ∧
    ∀ scope (t : α) ps (h h₁ : Heap α) (s s₁ : S) kvs, PairsEnd scope ps h s kvs h₁ s₁ →
      (∃ w h', Ends ⟨.expr scope (.hash t ps), h, s⟩ (.ok w) h' s₁ ∧
        Finds S h' w (lastUnder kvs)) ∧
      ∀ k : Key, (∀ p ∈ kvs, ∀ x y, p.1 = .str x → k = .str y →
          Digest.ofText x = Digest.ofText y → x = y) →
        lastUnder kvs k = ((kvs.filter fun p => p.1 = k).getLast?).map (·.2) := by
  refine ⟨fun k k' => ⟨Key.hashKey_eq_iff, Key.fingerprint_eq_iff⟩,
    fun scope t ps h h' s s' w hends => ?_,
    fun scope t ps h h₁ s s₁ kvs hps => ⟨?_, fun k hk => lastUnder_of_texts hk⟩⟩
  · obtain ⟨kvs, h₁, hps, -⟩ := ends_literal_iff.mp hends
    exact ⟨kvs, h₁, hps⟩
  · have hmakes := h₁.makes_alloc (.hash (Table.empty.fill kvs))
    exact ⟨_, _, ends_literal_iff.mpr ⟨kvs, h₁, hps, hmakes⟩, hps.finds hmakes⟩

/-- With the pairs `"a": 1`, `1: 2` and `"a": 3`, a hash gives 3 for `"a"`. -/
theorem threePairs_find_last :
    PairsEnd 0 [(.str () "a", .int () 1), (.int () 1, .int () 2), (.str () "a", .int () 3)]
        (Heap.initial (α := Unit)) (Memory.start [] ∅)
        [(.str "a", .int 1), (.int 1, .int 2), (.str "a", .int 3)]
        Heap.initial (Memory.start [] ∅) ∧
      ∃ h', Ends ⟨.expr 0 (.index () (.hash () [(.str () "a", .int () 1), (.int () 1, .int () 2),
          (.str () "a", .int () 3)]) (.str () "a")), Heap.initial, Memory.start [] ∅⟩
        (.ok (.int 3)) h' (Memory.start [] ∅) := by
  have hps : PairsEnd 0 [(.str () "a", .int () 1), (.int () 1, .int () 2), (.str () "a", .int () 3)]
      (Heap.initial (α := Unit)) (Memory.start [] ∅)
      [(.str "a", .int 1), (.int 1, .int 2), (.str "a", .int 3)] Heap.initial
      (Memory.start [] ∅) :=
    .cons ends_str ends_int (.cons ends_int ends_int (.cons ends_str ends_int .nil))
  obtain ⟨⟨w, h', hends, hfinds⟩, -⟩ := hashes_find_last_alike.2.2 0 () _ _ _ _ _ _ hps
  have hlast : h'.ObjectsLast h' :=
    ⟨fun id es ho => ⟨es, ho, List.prefix_refl es⟩, fun _ _ ho => ho, fun _ _ ho => ho⟩
  have hfound := hfinds 0 () _ _ _ _ _ _ _ _ _ hends (ends_str (t := ()) (x := "a")) hlast
  have hthree : lastUnder [(.str "a", .int 1), (.int 1, .int 2), (.str "a", .int 3)] (.str "a") =
      some (.int 3) := by decide +kernel
  rw [hthree] at hfound
  exact ⟨hps, h', hfound⟩

/-! ## Texts of one digest -/

def oneText : String := "qRNEkjBqxIJNV11fone text of manynzV\x7blQd-to tell."

def otherText : String := "qRNEkjBqxIJNV11fand another textnzV\x7blQd-the same"

/-- With the digest that goes by their bytes, two texts share a pair: in a hash that has a pair for
the one and none for the other, the value is found by the other as well, where `null` should be
for a finite map. -/
theorem texts_share_pair :
    oneText ≠ otherText ∧ (Key.str oneText).hashKey = (Key.str otherText).hashKey ∧
      PairsEnd 0 [(.str () oneText, .int () 1)] (Heap.initial (α := Unit)) (Memory.start [] ∅)
        [(.str oneText, .int 1)] Heap.initial (Memory.start [] ∅) ∧
      (∀ p ∈ [(Key.str oneText, Value.int 1)], p.1 ≠ .str otherText) ∧
      ∃ h', Ends ⟨.expr 0 (.index () (.hash () [(.str () oneText, .int () 1)])
          (.str () otherText)), Heap.initial, Memory.start [] ∅⟩
        (.ok (.int 1)) h' (Memory.start [] ∅) := by
  have hne : oneText ≠ otherText := by decide +kernel
  have hdigest : Digest.ofText oneText = Digest.ofText otherText := by decide +kernel
  have hps : PairsEnd 0 [(.str () oneText, .int () 1)] (Heap.initial (α := Unit))
      (Memory.start [] ∅) [(.str oneText, .int 1)] Heap.initial (Memory.start [] ∅) :=
    .cons ends_str ends_int .nil
  refine ⟨hne, Key.hashKey_eq_iff.mpr (.texts hdigest), hps, ?_, ?_⟩
  · intro p hp heq
    rw [List.mem_singleton.mp hp] at heq
    exact hne (Key.str.inj heq)
  · have hmakes := Heap.makes_alloc (α := Unit) Heap.initial
      (.hash (Table.empty.fill [(.str oneText, .int 1)]))
    have hliteral := (ends_literal_iff (t := ())).mpr ⟨_, _, hps, hmakes⟩
    refine ⟨_, ends_index hliteral ends_str ?_ trivial⟩
    rw [Object.valueAt, index_hash hmakes.object, Table.find?_fill, lastUnder_cons,
      if_pos (.texts hdigest)]
    rfl

end MonkeyLang
