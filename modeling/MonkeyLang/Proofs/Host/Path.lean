import Mathlib.Logic.Relation
import MonkeyLang.Host.Path

/-!
# Paths of the same file

When two paths name the same file can be said without looking into paths: they do if one comes
from the other by doubling a slash, by putting a slash at the end, or by putting in a step `.`
behind a slash, or by leaving these out again, any number of times.

What a path names, its start and its steps, is what all this leaves as it is.  So it tells the
files apart: a path can be brought to the text that is written from its start and its steps, and
two paths of one name to the same text.
-/

namespace MonkeyLang

/-- A path is shortened by something that makes no difference to the file that it names. -/
inductive Shortens : String → String → Prop
  | slashes (a b : String) : Shortens (a ++ "//" ++ b) (a ++ "/" ++ b)
  | lastSlash {a : String} (ha : a ≠ "") : Shortens (a ++ "/") a
  | dot (a b : String) : Shortens (a ++ "/./" ++ b) (a ++ "/" ++ b)
  | lastDot (a : String) : Shortens (a ++ "/.") (a ++ "/")

/-- Two paths name the same file. -/
def SamePath : String → String → Prop :=
  Relation.EqvGen Shortens

/-! ## The parts of a path -/

theorem slashSeparated_eq_splitOn (cs : List Char) : slashSeparated cs = cs.splitOn '/' := by
  induction cs with
  | nil => rfl
  | cons c cs ih =>
      obtain ⟨part, parts, hcs⟩ := List.exists_cons_of_ne_nil (List.splitOn_ne_nil '/' cs)
      rw [slashSeparated, ih, List.splitOn_cons_eq_if_modifyHead, hcs]
      simp

/-- Steps, each behind a slash. -/
def behindSlashes (steps : List String) : String :=
  String.join (steps.map ("/" ++ ·))

theorem behindSlashes_cons (step : String) (steps : List String) :
    behindSlashes (step :: steps) = "/" ++ step ++ behindSlashes steps :=
  String.join_cons

theorem intercalate_slash_cons (step : String) (steps : List String) :
    "/".intercalate (step :: steps) = step ++ behindSlashes steps := by
  induction steps generalizing step with
  | nil => simp [behindSlashes]
  | cons next steps ih =>
      rw [String.intercalate_cons_cons, ih, behindSlashes_cons, String.append_assoc,
        String.append_assoc]

theorem pathParts_slash (a b : String) :
    pathParts (a ++ "/" ++ b) = pathParts a ++ pathParts b := by
  have hchars : (a ++ "/" ++ b).toList = a.toList ++ '/' :: b.toList := by simp
  simp only [pathParts, hchars, slashSeparated_eq_splitOn, List.splitOn_append_cons_self,
    List.map_append]

theorem intercalate_pathParts (path : String) : "/".intercalate (pathParts path) = path := by
  have hparts : (pathParts path).map String.toList = path.toList.splitOn '/' := by
    simp [pathParts, Function.comp_def, slashSeparated_eq_splitOn]
  rw [← String.toList_inj, String.toList_intercalate, hparts]
  exact List.intercalate_splitOn '/'

/-- A path is its first part, and its other parts behind slashes. -/
theorem exists_parts (path : String) :
    ∃ first rest, pathParts path = first :: rest ∧ path = first ++ behindSlashes rest := by
  have hne : pathParts path ≠ [] := by
    simp [pathParts, slashSeparated_eq_splitOn]
  obtain ⟨first, rest, hparts⟩ := List.exists_cons_of_ne_nil hne
  refine ⟨first, rest, hparts, ?_⟩
  rw [← intercalate_slash_cons, ← hparts, intercalate_pathParts]

namespace PathName

@[simp]
theorem properSteps_append (steps steps' : List String) :
    properSteps (steps ++ steps') = properSteps steps ++ properSteps steps' :=
  List.filter_append ..

/-- A path is rooted if it has other parts behind an empty first one. -/
theorem startsWith_slash {path first : String} {rest : List String}
    (h : pathParts path = first :: rest) :
    path.startsWith "/" = true ↔ first = "" ∧ rest ≠ [] := by
  rw [String.startsWith_string_iff]
  constructor
  · rintro ⟨cs, hcs⟩
    have hpath : path = "" ++ "/" ++ String.ofList cs := by
      rw [← String.toList_inj, ← hcs]
      simp
    rw [hpath, pathParts_slash] at h
    obtain ⟨rfl, rfl⟩ := List.cons.inj h
    obtain ⟨part, parts, hparts, -⟩ := exists_parts (String.ofList cs)
    exact ⟨rfl, by simp [hparts]⟩
  · rintro ⟨rfl, hrest⟩
    obtain ⟨next, more, rfl⟩ := List.exists_cons_of_ne_nil hrest
    rw [← intercalate_pathParts path, h, intercalate_slash_cons, behindSlashes_cons]
    simp

theorem ofPath_rooted {path : String} {rest : List String} (h : pathParts path = "" :: rest)
    (hrest : rest ≠ []) : ofPath path = ⟨true, properSteps rest⟩ := by
  have hrooted : path.startsWith "/" = true := (startsWith_slash h).mpr ⟨rfl, hrest⟩
  rw [ofPath, hrooted, h]
  rfl

theorem ofPath_empty {path : String} (h : pathParts path = [""]) : ofPath path = ⟨false, []⟩ := by
  have hrooted : path.startsWith "/" = false := by
    rw [Bool.eq_false_iff, ne_eq, startsWith_slash h]
    simp
  rw [ofPath, hrooted, h]
  rfl

/-- A first part that is not empty is a step, also if it is a dot. -/
theorem ofPath_relative {path first : String} {rest : List String}
    (h : pathParts path = first :: rest) (hfirst : first ≠ "") :
    ofPath path = ⟨false, first :: properSteps rest⟩ := by
  have hrooted : path.startsWith "/" = false := by
    rw [Bool.eq_false_iff, ne_eq, startsWith_slash h]
    simp [hfirst]
  rw [ofPath, hrooted, h]
  by_cases hdot : first = "."
  · subst hdot
    rfl
  · simp [properSteps, hfirst, hdot]

/-- Two paths with the same first part name the same if the proper steps behind it are the same,
and there is something behind it in both or in neither. -/
theorem ofPath_congr {p q first : String} {rest rest' : List String}
    (hp : pathParts p = first :: rest) (hq : pathParts q = first :: rest')
    (hempty : first = "" → (rest = [] ↔ rest' = []))
    (hsteps : properSteps rest = properSteps rest') : ofPath p = ofPath q := by
  by_cases hfirst : first = ""
  · subst hfirst
    by_cases hrest : rest = []
    · have hrest' : rest' = [] := (hempty rfl).mp hrest
      subst hrest hrest'
      rw [ofPath_empty hp, ofPath_empty hq]
    · rw [ofPath_rooted hp hrest, ofPath_rooted hq (mt (hempty rfl).mpr hrest), hsteps]
  · rw [ofPath_relative hp hfirst, ofPath_relative hq hfirst, hsteps]

theorem properSteps_steps_ofPath (path : String) :
    properSteps (ofPath path).steps = properSteps (pathParts path) := by
  have hproper : properSteps (properSteps (pathParts path)) = properSteps (pathParts path) := by
    simp [properSteps, List.filter_filter]
  rw [ofPath, properSteps_append, hproper]
  split <;> rfl

theorem head?_steps_ofPath (path : String) :
    (ofPath path).steps.head? = some "." ↔ (pathParts path).head? = some "." := by
  obtain ⟨first, rest, hparts, -⟩ := exists_parts path
  by_cases hfirst : first = ""
  · subst hfirst
    have hproper : (properSteps rest).head? ≠ some "." := by
      intro hhead
      have hmem := List.mem_of_mem_head? hhead
      simp [properSteps] at hmem
    by_cases hrest : rest = []
    · subst hrest
      rw [ofPath_empty hparts, hparts]
      simp
    · rw [ofPath_rooted hparts hrest, hparts]
      simp [hproper]
  · rw [ofPath_relative hparts hfirst, hparts]
    rfl

/-- A part that leads nowhere. -/
def IsIdle (part : String) : Prop :=
  part = "" ∨ part = "."

section

variable {a b first first' part : String} {rest rest' : List String}

theorem pathParts_of_isIdle (hpart : IsIdle part) : pathParts part = [part] := by
  obtain rfl | rfl := hpart <;> rfl

theorem properSteps_of_isIdle (hpart : IsIdle part) (parts : List String) :
    properSteps (part :: parts) = properSteps parts := by
  obtain rfl | rfl := hpart <;> rfl

theorem pathParts_end (ha : pathParts a = first :: rest) (part : String) (hpart : IsIdle part) :
    pathParts (a ++ ("/" ++ part)) = first :: (rest ++ [part]) := by
  rw [← String.append_assoc, pathParts_slash, ha, pathParts_of_isIdle hpart, List.cons_append]

theorem pathParts_between (ha : pathParts a = first :: rest) (hb : pathParts b = first' :: rest')
    (part : String) (hpart : IsIdle part) :
    pathParts (a ++ ("/" ++ part ++ "/") ++ b) = first :: (rest ++ part :: first' :: rest') := by
  rw [← String.append_assoc, pathParts_slash, pathParts_end ha part hpart, hb, List.cons_append,
    List.append_assoc, List.singleton_append]

end

theorem ofPath_between (a b part : String) (hpart : IsIdle part) :
    ofPath (a ++ ("/" ++ part ++ "/") ++ b) = ofPath (a ++ "/" ++ b) := by
  obtain ⟨first, rest, ha, -⟩ := exists_parts a
  obtain ⟨first', rest', hb, -⟩ := exists_parts b
  have hshort : pathParts (a ++ "/" ++ b) = first :: (rest ++ first' :: rest') := by
    rw [pathParts_slash, ha, hb, List.cons_append]
  refine ofPath_congr (pathParts_between ha hb part hpart) hshort (fun _ => by simp) ?_
  rw [properSteps_append, properSteps_append, properSteps_of_isIdle hpart]

/-- Shortening a path does not change what it names. -/
theorem ofPath_of_shortens {p q : String} (h : Shortens p q) : ofPath p = ofPath q := by
  cases h with
  | slashes a b => exact ofPath_between a b "" (Or.inl rfl)
  | dot a b => exact ofPath_between a b "." (Or.inr rfl)
  | lastSlash hq =>
      obtain ⟨first, rest, hparts, htext⟩ := exists_parts q
      refine ofPath_congr (pathParts_end hparts "" (Or.inl rfl)) hparts ?_ ?_
      · rintro rfl
        refine iff_of_false (by simp) ?_
        rintro rfl
        exact hq htext
      · rw [properSteps_append]
        exact List.append_nil _
  | lastDot a =>
      obtain ⟨first, rest, hparts, -⟩ := exists_parts a
      refine ofPath_congr (pathParts_end hparts "." (Or.inr rfl))
        (pathParts_end hparts "" (Or.inl rfl)) (fun _ => by simp) ?_
      rw [properSteps_append, properSteps_append]
      rfl

/-- The text of a name: its start, and its steps with slashes between them. -/
def text (name : PathName) : String :=
  (if name.rooted then "/" else "") ++ "/".intercalate name.steps

end PathName

/-! ## Shortening a path -/

namespace SamePath

theorem refl (p : String) : SamePath p p := Relation.EqvGen.refl p

theorem symm {p q : String} (h : SamePath p q) : SamePath q p := Relation.EqvGen.symm _ _ h

theorem trans {p q r : String} (hpq : SamePath p q) (hqr : SamePath q r) : SamePath p r :=
  Relation.EqvGen.trans _ _ _ hpq hqr

theorem of_shortens {p q : String} (h : Shortens p q) : SamePath p q :=
  Relation.EqvGen.rel _ _ h

open PathName

/-- A part that leads nowhere can be left out, if something stands before it or behind it. -/
theorem leave_out {a part : String} (hpart : IsIdle part) {rest : List String}
    (h : a ≠ "" ∨ rest ≠ []) :
    SamePath (a ++ behindSlashes (part :: rest)) (a ++ behindSlashes rest) := by
  cases rest with
  | nil =>
      have ha : a ≠ "" := h.resolve_right (· rfl)
      have hlast : behindSlashes [part] = "/" ++ part := by simp [behindSlashes]
      have hnone : a ++ behindSlashes [] = a := String.append_empty
      have hslash : SamePath (a ++ "/") a := of_shortens (.lastSlash ha)
      rw [hlast, hnone]
      obtain rfl | rfl := hpart
      · exact hslash
      · exact (of_shortens (.lastDot a)).trans hslash
  | cons next rest =>
      have hlong : a ++ behindSlashes (part :: next :: rest) =
          a ++ ("/" ++ part ++ "/") ++ (next ++ behindSlashes rest) := by
        simp only [behindSlashes_cons, String.append_assoc]
      have hshort : a ++ behindSlashes (next :: rest) =
          a ++ "/" ++ (next ++ behindSlashes rest) := by
        simp only [behindSlashes_cons, String.append_assoc]
      rw [hlong, hshort]
      obtain rfl | rfl := hpart
      · exact of_shortens (.slashes a _)
      · exact of_shortens (.dot a _)

theorem isIdle_or_proper (part : String) (parts : List String) :
    IsIdle part ∨ properSteps (part :: parts) = part :: properSteps parts := by
  by_cases h : IsIdle part
  · exact Or.inl h
  · refine Or.inr (List.filter_cons_of_pos ?_)
    simpa [IsIdle] using h

/-- Behind something, the parts that lead nowhere can be left out. -/
theorem leave_out_all {a : String} (ha : a ≠ "") (rest : List String) :
    SamePath (a ++ behindSlashes rest) (a ++ behindSlashes (properSteps rest)) := by
  -- A step that stays is moved into what stands before, so that this is never empty.
  induction rest generalizing a with
  | nil => exact refl _
  | cons part rest ih =>
      rcases isIdle_or_proper part rest with hpart | hsteps
      · rw [properSteps_of_isIdle hpart]
        exact (leave_out hpart (Or.inl ha)).trans (ih ha)
      · have ha' : a ++ ("/" ++ part) ≠ "" := by simp [ha]
        have htext (more : String) : a ++ ("/" ++ part ++ more) = a ++ ("/" ++ part) ++ more := by
          simp only [String.append_assoc]
        rw [hsteps, behindSlashes_cons, behindSlashes_cons, htext, htext]
        exact ih ha'

/-- Behind the root, the parts that lead nowhere can be left out. -/
theorem leave_out_rooted {rest : List String} (hrest : rest ≠ []) :
    SamePath (behindSlashes rest) ("/" ++ "/".intercalate (properSteps rest)) := by
  induction rest with
  | nil => exact absurd rfl hrest
  | cons part rest ih =>
      rcases isIdle_or_proper part rest with hpart | hsteps
      · rw [properSteps_of_isIdle hpart]
        by_cases hmore : rest = []
        · subst hmore
          obtain rfl | rfl := hpart
          · exact refl _
          · exact of_shortens (.lastDot "")
        · have hshort := leave_out (a := "") hpart (Or.inr hmore)
          rw [String.empty_append, String.empty_append] at hshort
          exact hshort.trans (ih hmore)
      · have ha : "/" ++ part ≠ "" := by simp
        rw [hsteps, behindSlashes_cons, intercalate_slash_cons, ← String.append_assoc]
        exact leave_out_all ha rest

/-- Every path names the same file as the text of what it names. -/
theorem text_ofPath (path : String) : SamePath path (ofPath path).text := by
  obtain ⟨first, rest, hparts, htext⟩ := exists_parts path
  by_cases hfirst : first = ""
  · subst hfirst
    rw [String.empty_append] at htext
    by_cases hrest : rest = []
    · subst hrest
      rw [ofPath_empty hparts, htext]
      exact refl ""
    · rw [ofPath_rooted hparts hrest, htext]
      exact leave_out_rooted hrest
  · have hrelative : (ofPath path).text = first ++ behindSlashes (properSteps rest) := by
      rw [ofPath_relative hparts hfirst, text, intercalate_slash_cons]
      exact String.empty_append
    rw [hrelative]
    conv => lhs; rw [htext]
    exact leave_out_all hfirst rest

end SamePath

/-- Two paths name the same file if and only if they name the same. -/
theorem samePath_iff_ofPath {p q : String} :
    SamePath p q ↔ PathName.ofPath p = PathName.ofPath q := by
  constructor
  · intro h
    induction h with
    | rel _ _ h => exact PathName.ofPath_of_shortens h
    | refl _ => rfl
    | symm _ _ _ ih => exact ih.symm
    | trans _ _ _ _ _ ihp ihq => exact ihp.trans ihq
  · intro h
    have hp := SamePath.text_ofPath p
    rw [h] at hp
    exact hp.trans (SamePath.text_ofPath q).symm

/-- Paths name the same file if and only if both start at the root or neither does, both begin with
the step `.` or neither does, and their other steps are the same, `..` among them. -/
theorem samePath_iff_steps {p q : String} :
    SamePath p q ↔ p.startsWith "/" = q.startsWith "/" ∧
      ((pathParts p).head? = some "." ↔ (pathParts q).head? = some ".") ∧
      PathName.properSteps (pathParts p) = PathName.properSteps (pathParts q) := by
  rw [samePath_iff_ofPath]
  constructor
  · intro h
    refine ⟨congrArg PathName.rooted h, ?_, ?_⟩
    · rw [← PathName.head?_steps_ofPath, h, PathName.head?_steps_ofPath]
    · rw [← PathName.properSteps_steps_ofPath, h, PathName.properSteps_steps_ofPath]
  · rintro ⟨hrooted, hdot, hsteps⟩
    have hhead : ((pathParts p).head? == some ".") = ((pathParts q).head? == some ".") := by
      rw [Bool.eq_iff_iff, beq_iff_eq, beq_iff_eq, hdot]
    rw [PathName.ofPath, hrooted, hhead, hsteps, PathName.ofPath]

instance (p q : String) : Decidable (SamePath p q) :=
  decidable_of_iff _ samePath_iff_ofPath.symm

example : SamePath "a/./b//c/" "a/b/c" ∧ ¬SamePath "./a" "a" ∧ ¬SamePath "b/../a" "a" ∧
    ¬SamePath "" "/" := by
  decide +kernel

end MonkeyLang
