import Mathlib.Data.List.DropRight
import MonkeyLang.Proofs.Token.Tiling

/-!
# Lines and columns

The line and the column of a token are found one character after the other, along with the
token itself.  But they can be told by the text that stands before the token, and by nothing
else: the line by the line feeds in this text, and the column by what comes after the last of
them.  So it makes no difference whether the characters before are gaps, or parts of strings
that go over several lines, or how many bytes they have.

A cursor that has come from the beginning of a text is at the place to which the characters
behind it lead; each token that it gives begins at such a place.
-/

namespace MonkeyLang

/-- The place at the end of a text: its bytes are counted, its line feeds, and the characters
after the last line feed. -/
def Place.endOf (text : String) : Place :=
  ⟨text.utf8ByteSize, 1 + text.toList.count '\n',
    1 + (text.toList.rtakeWhile (· ≠ '\n')).length⟩

/-- A token begins in a text behind `before`, and its line and column are told by `before`: one
more than the line feeds in it, and one more than the characters after the last of them.  The end
token comes behind the whole text. -/
structure FoundBehind (source before : String) (t : Token Position) : Prop where
  start : slice? source 0 t.pos.start = some before
  line : t.pos.line = 1 + before.toList.count '\n'
  column : t.pos.column = 1 + (before.toList.rtakeWhile (· ≠ '\n')).length
  eof : t.kind = .eof → before = source

/-! ## Places -/

theorem Place.endOf_concat (cs : List Char) (c : Char) :
    endOf (String.ofList (cs ++ [c])) = (endOf (String.ofList cs)).step c := by
  have hoffset : bytes (cs ++ [c]) = bytes cs + c.utf8Size := by
    rw [bytes_append, bytes_singleton]
  change Place.mk (bytes (cs ++ [c])) _ _ = step ⟨bytes cs, _, _⟩ c
  rw [hoffset, String.toList_ofList, String.toList_ofList, List.count_append,
    List.rtakeWhile_concat, step]
  by_cases hc : c = '\n'
  · subst hc
    rfl
  · rw [if_neg hc, if_pos (decide_eq_true hc), List.count_singleton, beq_false_of_ne hc,
      List.length_append]
    rfl

/-- Going over some characters leads to where they end. -/
theorem Place.after_origin (cs : List Char) : origin.after cs = endOf (String.ofList cs) := by
  induction cs using List.reverseRecOn with
  | nil => rfl
  | append_singleton cs c ih => rw [after_append, ih, endOf_concat, after_cons, after_nil]

theorem slice?_front (front back : List Char) :
    slice? (String.ofList (front ++ back)) 0 (bytes front) = some (String.ofList front) :=
  slice?_ofList [] front back

/-! ## What a cursor gives -/

namespace Cursor

/-- A cursor has come from the beginning of a text to where it is. -/
def GoesThrough (k : Cursor) (source : String) : Prop :=
  ∃ front, source = String.ofList (front ++ k.rest) ∧ k.place = Place.origin.after front

variable {k : Cursor} {source : String}

theorem goesThrough_ofText (source : String) : (ofText source).GoesThrough source :=
  ⟨[], String.ofList_toList.symm, rfl⟩

/-- A token that begins where a cursor is, is found there. -/
theorem foundBehind_of_place {front back : List Char} {t : Token Position}
    (hsource : source = String.ofList (front ++ back))
    (hplace : ⟨t.pos.start, t.pos.line, t.pos.column⟩ = Place.origin.after front)
    (heof : t.kind = .eof → back = []) : FoundBehind source (String.ofList front) t := by
  rw [Place.after_origin] at hplace
  obtain ⟨hstart, hline, hcolumn⟩ := Place.mk.inj hplace
  refine ⟨?_, hline, hcolumn, fun hkind => ?_⟩
  · rw [hsource, hstart]
    exact slice?_front front back
  · rw [hsource, heof hkind, List.append_nil]

theorem GoesThrough.next (hk : k.GoesThrough source) :
    (∃ before, FoundBehind source before k.next.1) ∧ k.next.2.GoesThrough source := by
  obtain ⟨place, rest⟩ := k
  obtain ⟨front, hsource, rfl⟩ := hk
  have hgap : source = String.ofList
      ((front ++ rest.takeWhile isGap) ++ rest.dropWhile isGap) := by
    rw [List.append_assoc, List.takeWhile_append_dropWhile]
    exact hsource
  have hhead := List.head?_dropWhile_not isGap rest
  rw [next_dropWhile, ← Place.after_append]
  revert hgap hhead
  generalize front ++ rest.takeWhile isGap = front'
  cases rest.dropWhile isGap with
  | nil =>
      intro hgap _
      exact ⟨⟨_, foundBehind_of_place hgap rfl fun _ => rfl⟩, front', hgap, rfl⟩
  | cons c cs =>
      intro hgap hhead
      have hc : isGap c = false := hhead
      rw [Cursor.next, nextFrom, hc, if_neg Bool.false_ne_true]
      refine ⟨⟨_, foundBehind_of_place hgap rfl fun hkind => ?_⟩, _, ?_,
        (Place.after_append _ front' (Lexeme.munch c cs).1.text).symm⟩
      · exact absurd hkind (Lexeme.munch_ne_eof c cs)
      · rw [List.append_assoc, Lexeme.munch_append]
        exact hgap

theorem GoesThrough.stream (hk : k.GoesThrough source) (n : Nat) :
    ∀ t ∈ k.stream n, ∃ before, FoundBehind source before t := by
  induction n generalizing k with
  | zero => exact fun t ht => absurd ht List.not_mem_nil
  | succ n ih =>
      obtain ⟨hfound, hnext⟩ := hk.next
      exact List.forall_mem_cons.mpr ⟨hfound, ih hnext⟩

end Cursor

theorem tokenize_eq_stream (source : String) :
    tokenize source = (Cursor.ofText source).stream ((tokens source).length + 1) :=
  (Cursor.stream_tokens (Cursor.ofText source) 1).symm

/-- The place of every token of a text, and of its end, is where the text before the token ends.
This goes for everything that a text gives when it is asked for tokens, as often as one likes. -/
theorem places_told_by_text (source : String) :
    (∀ t ∈ tokenize source, ∃ before, FoundBehind source before t) ∧
    ∀ n, ∃ ts, (Scanner.ofText source).bind (Scanner.stream n) = some ts ∧
      (Cursor.ofText source).stream n = ts ∧ ∀ t ∈ ts, ∃ before, FoundBehind source before t := by
  have hstream := (Cursor.goesThrough_ofText source).stream
  refine ⟨?_, fun n => ⟨_, Scanner.stream_ofText source n, rfl, hstream n⟩⟩
  rw [tokenize_eq_stream]
  exact hstream _

end MonkeyLang
