import MonkeyLang.Store.Assoc
import MonkeyLang.Store.Value

/-!
# Tables

A table holds the pairs of a hash, each under the fingerprint of its key.
Putting a pair into a table takes away the pair of the same fingerprint, key
and all.  The view of a table is `find?`, and `find?_insert` says all there is
to say about it.
-/

namespace MonkeyLang

/-- The pairs of a hash, each under the fingerprint of its key. -/
structure Table where
  byFingerprint : Assoc Fingerprint (Key × Value)
  deriving DecidableEq, Repr, Inhabited

namespace Table

/-- The table without pairs. -/
def empty : Table := ⟨Assoc.empty⟩

/-- The pairs, in the order in which their fingerprints were first put in. -/
def pairs (t : Table) : List (Key × Value) := t.byFingerprint.values

/-- The number of pairs. -/
def size (t : Table) : Nat := t.byFingerprint.size

variable [Digest]

/-- The value that is found by a key. -/
def find? (t : Table) (k : Key) : Option Value :=
  (t.byFingerprint.find? k.fingerprint).map (·.2)

/-- The table with a pair put in. -/
def insert (t : Table) (k : Key) (v : Value) : Table :=
  ⟨t.byFingerprint.insert k.fingerprint (k, v)⟩

@[simp]
theorem find?_empty (k : Key) : empty.find? k = none := rfl

theorem find?_insert (t : Table) (k k' : Key) (v : Value) :
    (t.insert k v).find? k' =
      if k.fingerprint = k'.fingerprint then some v else t.find? k' := by
  simp only [find?, insert, Assoc.find?_insert]
  split <;> rfl

end Table

end MonkeyLang
