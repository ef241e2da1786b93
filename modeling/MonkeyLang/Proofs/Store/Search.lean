import MonkeyLang.Proofs.Store.Age
import MonkeyLang.Store.Display

/-!
# What goes along the links of a heap, and ends

Names are searched for from a scope outward, and the text of an array or a hash
is put together from the texts of what it holds.  Neither says how many steps
are enough.  Here both are described without a bound, by derivations, which are
finite: a search that went round in a circle would have none, and no more would
the text of an array that held itself.

Where the scope around a scope is always an older one, every search has a derivation, and in
an aged heap so has every text: the bounds that `Heap.chain` and `Heap.display` take are
enough.
-/

namespace MonkeyLang

variable {α β γ : Type}

/-- A value stands for the object at a place. -/
inductive Value.StandsFor : Value → ObjectId → Prop
  | func (id) : StandsFor (.func id) id
  | array (id) : StandsFor (.array id) id
  | hash (id) : StandsFor (.hash id) id

theorem Value.StandsFor.standsIn_iff {h : Heap α} {v : Value} {id : ObjectId}
    (hfor : v.StandsFor id) : v.StandsIn h ↔ h.kind? id = some v.kind := by
  cases hfor <;> rfl

namespace Heap

/-! ## Searches -/

/-- A search from a scope outward, in which one scope after the other is asked,
ends with the answer of the first that has one, or with none. -/
inductive SearchEnds (h : Heap α) (ask : ScopeId → Option β) : ScopeId → Option β → Prop
  | found {s b} (hs : s < h.scopes.size) (hb : ask s = some b) : SearchEnds h ask s (some b)
  | outward {s o r} (hnone : ask s = none) (ho : h.outer? s = some o)
      (hr : SearchEnds h ask o r) : SearchEnds h ask s r
  | exhausted {s} (hs : s < h.scopes.size) (hnone : ask s = none) (ho : h.outer? s = none) :
      SearchEnds h ask s none

section

variable {h : Heap α} {ask : ScopeId → Option β} {s : ScopeId}

/-- A search ends in one way only. -/
theorem SearchEnds.unique {r r' : Option β} (hr : h.SearchEnds ask s r)
    (hr' : h.SearchEnds ask s r') : r = r' := by
  induction hr with
  | found _ hb =>
      cases hr' with
      | found _ hb' => exact hb.symm.trans hb'
      | outward hnone _ _ | exhausted _ hnone _ => cases hb.symm.trans hnone
  | outward hnone ho _ ih =>
      cases hr' with
      | found _ hb => cases hnone.symm.trans hb
      | outward _ ho' hr' =>
          obtain rfl := Option.some.inj (ho.symm.trans ho')
          exact ih hr'
      | exhausted _ _ ho' => cases ho.symm.trans ho'
  | exhausted _ hnone ho =>
      cases hr' with
      | found _ hb => cases hnone.symm.trans hb
      | outward _ ho' _ => cases ho.symm.trans ho'
      | exhausted => rfl

theorem SearchEnds.map {r : Option β} (hr : h.SearchEnds ask s r) (f : β → γ) :
    h.SearchEnds (fun t => (ask t).map f) s (r.map f) := by
  induction hr with
  | found hs hb => exact .found hs (by rw [hb, Option.map_some])
  | outward hnone ho _ ih => exact .outward (by rw [hnone, Option.map_none]) ho ih
  | exhausted hs hnone ho => exact .exhausted hs (by rw [hnone, Option.map_none]) ho

/-- Asking the scopes outward from `s` is a search, if the bound is not less than
there are scopes up to `s`. -/
theorem searchEnds_outward (houter : ∀ s o, h.outer? s = some o → o < s)
    (ask : ScopeId → Option β) {n : Nat} (hn : s < n) (hs : s < h.scopes.size) :
    h.SearchEnds ask s ((h.outward n s).findSome? ask) := by
  induction n generalizing s with
  | zero => exact (Nat.not_lt_zero s hn).elim
  | succ n ih =>
      have hscope : h.scopes[s]? = some h.scopes[s] := Array.getElem?_eq_getElem hs
      cases hask : ask s with
      | some b =>
          have hfind : (h.outward (n + 1) s).findSome? ask = some b := by
            simp only [outward, hscope]
            split <;> rw [List.findSome?_cons, hask]
          rw [hfind]
          exact .found hs hask
      | none =>
          cases hlink : (h.scopes[s]).outer with
          | none =>
              have ho : h.outer? s = none := by rw [outer?, hscope, Option.bind_some, hlink]
              simp only [outward, hscope, hlink, List.findSome?_cons, hask, List.findSome?_nil]
              exact .exhausted hs hask ho
          | some o =>
              have ho : h.outer? s = some o := by rw [outer?, hscope, Option.bind_some, hlink]
              have holder := houter s o ho
              simp only [outward, hscope, hlink, List.findSome?_cons, hask]
              refine .outward hask ho (ih ?_ (Nat.lt_trans holder hs))
              exact Nat.lt_of_lt_of_le holder (Nat.le_of_lt_succ hn)

theorem searchEnds_chain (houter : ∀ s o, h.outer? s = some o → o < s)
    (ask : ScopeId → Option β) (hs : s < h.scopes.size) :
    h.SearchEnds ask s ((h.chain s).findSome? ask) :=
  searchEnds_outward houter ask s.lt_succ_self hs

theorem holderIn_eq_findSome? (h : Heap α) (x : String) (ss : List ScopeId) :
    h.holderIn x ss = ss.findSome? fun t => (h.binding? t x).map (t, ·) := by
  induction ss with
  | nil => rfl
  | cons s ss ih =>
      rw [holderIn, List.findSome?_cons]
      cases h.binding? s x with
      | none => exact ih
      | some b => rfl

theorem existsBinding_eq_isSome (h : Heap α) (s : ScopeId) (kind : BindingKind) (x : String) :
    h.existsBinding s kind x =
      ((h.chain s).findSome? fun t => h.bound? t kind x).isSome := by
  rw [existsBinding]
  induction h.chain s with
  | nil => rfl
  | cons t ts ih =>
      rw [List.any_cons, List.findSome?_cons, ih]
      cases h.bound? t kind x <;> rfl

/-- The holder of a name is what a search for a binding of it ends with. -/
theorem searchEnds_holder? (houter : ∀ s o, h.outer? s = some o → o < s)
    (hs : s < h.scopes.size) (x : String) :
    h.SearchEnds (fun t => (h.binding? t x).map (t, ·)) s (h.holder? s x) := by
  rw [holder?, holderIn_eq_findSome?]
  exact searchEnds_chain houter _ hs

/-- The value of a name is what a search for a value of it ends with. -/
theorem searchEnds_lookup (houter : ∀ s o, h.outer? s = some o → o < s)
    (hs : s < h.scopes.size) (x : String) :
    h.SearchEnds (fun t => (h.binding? t x).map (·.value)) s (h.lookup s x) := by
  have hmap := (searchEnds_holder? houter hs x).map (·.2.value)
  simpa only [lookup, Option.map_map, Function.comp_def] using hmap

end

/-! ## Texts -/

mutual

/-- A value is shown by a text. -/
inductive Shows (h : Heap α) : Value → String → Prop
  | int (n) : Shows h (.int n) n.toInt.repr
  | str (s) : Shows h (.str s) s
  | bool (b) : Shows h (.bool b) (if b then "true" else "false")
  | null : Shows h .null "null"
  | ret {v text} (hv : Shows h v text) : Shows h (.ret v) text
  | error (message) : Shows h (.error message) ("ERROR: " ++ message)
  | builtin (b) : Shows h (.builtin b) "builtin function"
  | func {id f} (hf : h.objects[id]? = some (.func f)) : Shows h (.func id) f.display
  | array {id es texts} (ho : h.objects[id]? = some (.array es)) (hes : ShowsEach h es texts) :
      Shows h (.array id) ("[" ++ commaSeparated texts ++ "]")
  | hash {id t texts} (ho : h.objects[id]? = some (.hash t)) (ht : ShowsPairs h t.pairs texts) :
      Shows h (.hash id) ("\x7b" ++ commaSeparated texts ++ "\x7d")

/-- Values are shown by texts, one by one. -/
inductive ShowsEach (h : Heap α) : List Value → List String → Prop
  | nil : ShowsEach h [] []
  | cons {v vs text texts} (hv : Shows h v text) (hvs : ShowsEach h vs texts) :
      ShowsEach h (v :: vs) (text :: texts)

/-- Pairs are shown by texts, one by one. -/
inductive ShowsPairs (h : Heap α) : List (Key × Value) → List String → Prop
  | nil : ShowsPairs h [] []
  | cons {k v ps key text texts} (hk : Shows h k.value key) (hv : Shows h v text)
      (hps : ShowsPairs h ps texts) : ShowsPairs h ((k, v) :: ps) ((key ++ ": " ++ text) :: texts)

end

section

variable {h : Heap α}

mutual

/-- A value is shown by one text only. -/
theorem Shows.unique {v : Value} {text text' : String} :
    h.Shows v text → h.Shows v text' → text = text'
  | .int _, .int _ | .str _, .str _ | .bool _, .bool _ | .null, .null
  | .error _, .error _ | .builtin _, .builtin _ => rfl
  | .ret hv, .ret hv' => hv.unique hv'
  | .func hf, .func hf' => by
      cases hf.symm.trans hf'
      rfl
  | .array ho hes, .array ho' hes' => by
      cases ho.symm.trans ho'
      rw [hes.unique hes']
  | .hash ho ht, .hash ho' ht' => by
      cases ho.symm.trans ho'
      rw [ht.unique ht']

theorem ShowsEach.unique {vs : List Value} {texts texts' : List String} :
    h.ShowsEach vs texts → h.ShowsEach vs texts' → texts = texts'
  | .nil, .nil => rfl
  | .cons hv hvs, .cons hv' hvs' => by rw [hv.unique hv', hvs.unique hvs']

theorem ShowsPairs.unique {ps : List (Key × Value)} {texts texts' : List String} :
    h.ShowsPairs ps texts → h.ShowsPairs ps texts' → texts = texts'
  | .nil, .nil => rfl
  | .cons hk hv hps, .cons hk' hv' hps' => by
      rw [hk.unique hk', hv.unique hv', hps.unique hps']

end

theorem showsEach_map {f : Value → String} {vs : List Value} (hvs : ∀ v ∈ vs, h.Shows v (f v)) :
    h.ShowsEach vs (vs.map f) := by
  induction vs with
  | nil => exact .nil
  | cons v vs ih =>
      refine .cons (hvs v List.mem_cons_self) (ih fun w hw => ?_)
      exact hvs w (List.mem_cons_of_mem _ hw)

theorem showsPairs_map {f : Value → String} {ps : List (Key × Value)}
    (hps : ∀ p ∈ ps, h.Shows p.1.value (f p.1.value) ∧ h.Shows p.2 (f p.2)) :
    h.ShowsPairs ps (ps.map fun p => f p.1.value ++ ": " ++ f p.2) := by
  induction ps with
  | nil => exact .nil
  | cons p ps ih =>
      obtain ⟨hk, hv⟩ := hps p List.mem_cons_self
      exact .cons hk hv (ih fun q hq => hps q (List.mem_cons_of_mem _ hq))

/-- The text of a value is put together from the texts of the objects to which it
refers. -/
theorem shows_displayWith {object : ObjectId → String} {v : Value} (hv : v.StandsIn h)
    (hobject : ∀ w id, w.StandsFor id → w.StandsIn h → .object id ∈ v.nodes →
      h.Shows w (object id)) : h.Shows v (v.displayWith object) := by
  induction v with
  | func id => exact hobject _ id (.func id) hv List.mem_cons_self
  | array id => exact hobject _ id (.array id) hv List.mem_cons_self
  | hash id => exact hobject _ id (.hash id) hv List.mem_cons_self
  | ret v ih => exact .ret (ih hv hobject)
  | int n => exact .int n
  | str s => exact .str s
  | bool b => exact .bool b
  | null => exact .null
  | error message => exact .error message
  | builtin b => exact .builtin b

/-- The text of an object that is made up to a bound shows the object, if its place
is below the bound. -/
theorem Aged.shows_displayObject (hh : h.Aged) (n : Nat) {v : Value} {id : ObjectId}
    (hfor : v.StandsFor id) (hv : v.StandsIn h) (hn : id < n) :
    h.Shows v (h.displayObject n id) := by
  induction n generalizing v id with
  | zero => exact (Nat.not_lt_zero id hn).elim
  | succ n ih =>
      -- What the object holds is older, so that the bound is enough for it.
      have hheld : ∀ w ∈ h.values (.object id),
          h.Shows w (w.displayWith (h.displayObject n)) := by
        intro w hw
        refine shows_displayWith (hh.values _ w hw) fun u j hu hin hj => ih hu hin ?_
        exact Nat.lt_of_lt_of_le (hh.contents id j ⟨w, hw, hj⟩) (Nat.le_of_lt_succ hn)
      obtain ⟨o, ho, hkind⟩ := Option.map_eq_some_iff.mp (hfor.standsIn_iff.mp hv)
      cases hfor with
      | func id =>
          cases o with
          | func f =>
              simp only [displayObject, ho]
              exact .func ho
          | array | hash => cases hkind
      | array id =>
          cases o with
          | array es =>
              simp only [displayObject, ho]
              refine .array ho (showsEach_map fun e he => hheld e ?_)
              exact mem_values_object.mpr ⟨_, ho, he⟩
          | func | hash => cases hkind
      | hash id =>
          cases o with
          | hash t =>
              simp only [displayObject, ho]
              have hmem : ∀ p ∈ t.pairs, ∀ w ∈ [p.1.value, p.2], w ∈ h.values (.object id) :=
                fun p hp w hw =>
                  mem_values_object.mpr ⟨_, ho, List.mem_flatMap.mpr ⟨p, hp, hw⟩⟩
              refine .hash ho (showsPairs_map fun p hp => ⟨hheld _ ?_, hheld _ ?_⟩)
              · exact hmem p hp _ List.mem_cons_self
              · exact hmem p hp _ (List.mem_cons_of_mem _ List.mem_cons_self)
          | func | array => cases hkind

/-- Every value that stands in an aged heap is shown by its text. -/
theorem Aged.shows_display (hh : h.Aged) {v : Value} (hv : v.StandsIn h) :
    h.Shows v (h.display v) :=
  shows_displayWith hv fun _ _ hfor hin hid =>
    hh.shows_displayObject h.objects.size hfor hin (hv.lt_of_mem_nodes hid)

end

end Heap

end MonkeyLang
