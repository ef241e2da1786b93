import Mathlib.Data.List.Forall2
import MonkeyLang.Proofs.Grammar.RoundTrip
import MonkeyLang.Proofs.Reading.Log
import MonkeyLang.Proofs.Token.Gaps

/-!
# Texts that are read alike

The tokens of a text can have their numbers in place of their places.  The numbered tokens
are read once, and every text with tokens of these kinds and literals is read in the same
way, but for the places that its own tokens have: so the trees are the same but for places,
and an error of the one text sits where the tokens of that number are in the other.

Nothing in the parsers asks for a place, a line or a gap.
-/

namespace MonkeyLang

open Reading

variable {π : Type}

/-! ## Numbers for places -/

/-- Tokens with their numbers in the list for places. -/
def numbered (ts : List (Token π)) : List (Token Nat) :=
  ts.mapIdx fun i t => t.map fun _ => i

/-- The place of the token with a number; the end comes next after the last token. -/
def placeAt (endPos : π) (ts : List (Token π)) (i : Nat) : π :=
  (Trail.places endPos ts)[i]?.getD endPos

/-- The numbers of the tokens and of their end. -/
theorem places_numbered (ts : List (Token π)) :
    Trail.places ts.length (numbered ts) = List.range (ts.length + 1) := by
  rw [Trail.places, List.range_succ]
  refine congrArg (· ++ [ts.length]) (List.ext_getElem (by simp [numbered]) fun i _ _ => ?_)
  simp [numbered]

theorem getElem?_places (endPos : π) {ts : List (Token π)} {i : Nat} (hi : i ≤ ts.length) :
    (Trail.places endPos ts)[i]? = some (placeAt endPos ts i) := by
  have hlt : i < (Trail.places endPos ts).length := by
    simpa [Trail.places] using Nat.lt_succ_of_le hi
  rw [placeAt, List.getElem?_eq_getElem hlt, Option.getD_some]

theorem placeAt_length (endPos : π) (ts : List (Token π)) :
    placeAt endPos ts ts.length = endPos := by
  simp [placeAt, Trail.places]

/-- Tokens are what they are when numbered, at their places. -/
theorem numbered_map (endPos : π) (ts : List (Token π)) :
    (numbered ts).map (Token.map (placeAt endPos ts)) = ts := by
  refine List.ext_getElem (by simp [numbered]) fun i h h' => ?_
  simp [numbered, placeAt, Trail.places, List.getElem?_append, h', Token.map]

/-- Tokens of the same kinds and literals have the same numbers. -/
theorem numbered_eq_of_bare {ρ : Type} {ts : List (Token π)} {us : List (Token ρ)}
    (h : ts.map (Token.map fun _ => ()) = us.map (Token.map fun _ => ())) :
    numbered ts = numbered us := by
  have bare {σ : Type} (vs : List (Token σ)) : numbered vs =
      (vs.map (Token.map fun _ => ())).mapIdx fun i t => t.map fun _ => i :=
    List.ext_getElem (by simp [numbered]) fun i _ _ => by simp [numbered, Token.map]
  rw [bare ts, bare us, h]

/-- Errors are found like their numbers, at the places of these. -/
theorem errors_numbered (endPos : π) (ts : List (Token π)) :
    (parseTokens endPos ts).errors = (parseTokens ts.length (numbered ts)).errors.map
      (ParseError.map (placeAt endPos ts)) := by
  have hmap := (parseTokens_map (placeAt endPos ts) ts.length (numbered ts)).2
  rwa [numbered_map, placeAt_length] at hmap

/-- Errors are found at the numbers of tokens, or of their end. -/
theorem pos_le_of_numbered {ts : List (Token π)} {e : ParseError Nat}
    (he : e ∈ (parseTokens ts.length (numbered ts)).errors) : e.pos ≤ ts.length := by
  have htrail := (Call.recorded ts.length (.statements (numbered ts))).trail
  have hmem : e.pos ∈ Trail.places ts.length (numbered ts) := htrail.pos_mem_places e he
  rw [places_numbered] at hmem
  exact Nat.le_of_lt_succ (List.mem_range.mp hmem)

/-! ## Texts -/

/-- Errors in two texts that have one message and sit on tokens with one number. -/
structure ErrorsAlike (source other : String) (e e' : ParseError Position) : Prop where
  message : e.message = e'.message
  token : ∃ (i : Nat) (t t' : Token Position), (tokenize source)[i]? = some t ∧
    (tokenize other)[i]? = some t' ∧ e.pos = t.pos ∧ e'.pos = t'.pos

/-- Two texts are read as the same tree, but for the places of tokens, with the same errors
on the same tokens. -/
structure ReadAlike (source other : String) : Prop where
  program : (parseText source).program.map (Token.map fun _ => ()) =
    (parseText other).program.map (Token.map fun _ => ())
  errors : List.Forall₂ (ErrorsAlike source other) (parseText source).errors
    (parseText other).errors

theorem map_pos_tokenize (source : String) :
    (tokenize source).map Token.pos = Trail.places (endToken source).pos (tokens source) := by
  rw [tokenize, List.map_append]
  rfl

theorem exists_getElem?_tokenize {source : String} {i : Nat} (hi : i ≤ (tokens source).length) :
    ∃ t, (tokenize source)[i]? = some t ∧
      placeAt (endToken source).pos (tokens source) i = t.pos := by
  have hplace := getElem?_places (endToken source).pos hi
  rw [← map_pos_tokenize, List.getElem?_map] at hplace
  obtain ⟨t, ht, hpos⟩ := Option.map_eq_some_iff.mp hplace
  exact ⟨t, ht, hpos.symm⟩

/-- Texts whose tokens are the same but for places are read alike. -/
theorem readAlike_of_bare {source other : String}
    (h : bareTokens source.toList = bareTokens other.toList) : ReadAlike source other := by
  rw [← tokens_bare, ← tokens_bare] at h
  have hlength : (tokens source).length = (tokens other).length := by
    simpa using congrArg List.length h
  have herrors := errors_numbered (endToken source).pos (tokens source)
  have herrors' := errors_numbered (endToken other).pos (tokens other)
  rw [← numbered_eq_of_bare h, ← hlength] at herrors'
  refine ⟨(parseTokens_of_bare _ _ h).1, ?_⟩
  rw [parseText, parseText, herrors, herrors', List.forall₂_map_left_iff,
    List.forall₂_map_right_iff, List.forall₂_same]
  intro e he
  have hle := pos_le_of_numbered he
  obtain ⟨t, ht, hpos⟩ := exists_getElem?_tokenize hle
  obtain ⟨t', ht', hpos'⟩ := exists_getElem?_tokenize (hlength ▸ hle)
  exact ⟨rfl, e.pos, t, t', ht, ht', hpos, hpos'⟩

/-- Reading a text is blind to where its tokens are.  Two texts that have the same tokens, by
kind and literal, are read alike, whether or not they are programs; in particular it makes no
difference to make another gap of one that is part of no token. -/
theorem reading_blind_to_places :
    (∀ source other : String,
      (tokenize source).map (fun t => (t.kind, t.literal)) =
        (tokenize other).map (fun t => (t.kind, t.literal)) → ReadAlike source other) ∧
    ∀ before w w' after : String, IsGapText w.toList → IsGapText w'.toList →
      LiesBetweenTokens before w after → ReadAlike (before ++ w ++ after) (before ++ w' ++ after) := by
  refine ⟨fun source other h => readAlike_of_bare ?_, fun before w w' after hw hw' h =>
    readAlike_of_bare (bareTokens_change_gap hw hw' h)⟩
  rw [tokenize, tokenize, List.map_append, List.map_append] at h
  have htokens := (List.append_inj' h rfl).1
  have hbare := congrArg (List.map fun kl : Kind × String => Token.mk kl.1 kl.2 ()) htokens
  rw [List.map_map, List.map_map] at hbare
  rw [← tokens_bare, ← tokens_bare]
  exact hbare

/-- A text with an operand missing is read alike without its gaps, and with a line break for
the gap before the sign at which this is noticed. -/
theorem missingOperand_read_alike :
    (tokenize "x = \n * 2; \"a  b\"").map (fun t => (t.kind, t.literal)) =
      (tokenize "x=*2;\"a  b\"").map (fun t => (t.kind, t.literal)) ∧
    ReadAlike "x = \n * 2; \"a  b\"" "x=*2;\"a  b\"" ∧
    IsGapText " ".toList ∧ IsGapText "\r\n\t".toList ∧
    LiesBetweenTokens "x =" " " "* 2; \"a  b\"" ∧
    ReadAlike ("x =" ++ " " ++ "* 2; \"a  b\"") ("x =" ++ "\r\n\t" ++ "* 2; \"a  b\"") ∧
    (parseText "x=*2;\"a  b\"").errors.map ParseError.message =
      ["no prefix parse function for * found"] := by
  have htokens : (tokenize "x = \n * 2; \"a  b\"").map (fun t => (t.kind, t.literal)) =
      (tokenize "x=*2;\"a  b\"").map (fun t => (t.kind, t.literal)) := by decide +kernel
  have hspace : IsGapText " ".toList := ⟨by decide, List.all_eq_true.mp (by decide)⟩
  have hbreak : IsGapText "\r\n\t".toList := ⟨by decide, List.all_eq_true.mp (by decide)⟩
  have hbetween : LiesBetweenTokens "x =" " " "* 2; \"a  b\"" := by decide +kernel
  exact ⟨htokens, reading_blind_to_places.1 _ _ htokens, hspace, hbreak, hbetween,
    reading_blind_to_places.2 _ _ _ _ hspace hbreak hbetween, by decide +kernel⟩

end MonkeyLang
