import Mathlib.Data.List.Basic
import MonkeyLang.Host.Memory
import MonkeyLang.Proofs.Reading.Outcomes
import MonkeyLang.Proofs.Token.Apt
import MonkeyLang.Proofs.Token.Bare
import MonkeyLang.Session.Basic

/-!
# The entries of what is typed

Where the entries of a session begin and end is known from what is typed, before anything
is run: what is typed is divided into entries, perhaps a line that ends the session, and
what nobody reads any more.  Nothing is lost between the entries, and an entry goes on
exactly as long as its braces are open.
-/

namespace MonkeyLang

/-- The characters of a line that stands before `rest`: with the line feed that ends it, or
without one at the end of all. -/
inductive IsLine (line rest : List Char) : Prop
  | ended {body : List Char} (hbody : '\n' ∉ body) (hline : line = body ++ ['\n'])
  | last (hbody : '\n' ∉ line) (hne : line ≠ []) (hend : rest = [])

/-- Lines that stand one after the other before `rest`. -/
def AreLines : List (List Char) → List Char → Prop
  | [], _ => True
  | line :: lines, rest => IsLine line (lines.flatten ++ rest) ∧ AreLines lines rest

/-- What a line says: its text without the characters that end it. -/
def lineText (line : List Char) : String :=
  String.ofList (stripLineEnd line)

/-- What lines say, with a line feed between one and the next. -/
def linesText (lines : List (List Char)) : String :=
  "\n".intercalate (lines.map lineText)

section

variable {line rest : List Char} {lines more : List (List Char)}

theorem stripLineEnd_concat (body : List Char) :
    stripLineEnd (body ++ ['\n']) = stripLineEnd body := by
  rw [stripLineEnd, List.reverse_append]
  rfl

theorem takeLine?_of_ne_nil {text : List Char} (h : text ≠ []) :
    takeLine? text = some (String.ofList (stripLineEnd (text.takeWhile (· ≠ '\n'))),
      (text.dropWhile (· ≠ '\n')).tail) := by
  cases text with
  | nil => exact absurd rfl h
  | cons c cs => rfl

theorem IsLine.ne_nil (h : IsLine line rest) : line ≠ [] := by
  cases h with
  | ended _ hline => exact hline ▸ List.append_ne_nil_of_right_ne_nil _ (List.cons_ne_nil _ _)
  | last _ hne => exact hne

theorem IsLine.length_lt (h : IsLine line rest) : rest.length < (line ++ rest).length := by
  rw [List.length_append]
  exact Nat.lt_add_of_pos_left (List.length_pos_iff.mpr h.ne_nil)

theorem IsLine.takeLine? (h : IsLine line rest) :
    takeLine? (line ++ rest) = some (lineText line, rest) := by
  rw [takeLine?_of_ne_nil (List.append_ne_nil_of_left_ne_nil h.ne_nil _), lineText]
  have run {w r : List Char} (hw : '\n' ∉ w) (hr : ∀ c ∈ r.head?, c = '\n') :
      (w ++ r).takeWhile (· ≠ '\n') = w ∧ (w ++ r).dropWhile (· ≠ '\n') = r :=
    takeWhile_run (fun c hc => decide_eq_true fun hfeed => hw (hfeed ▸ hc))
      fun c hc => decide_eq_false (not_not_intro (hr c hc))
  cases h with
  | @ended body hbody hline =>
      subst hline
      obtain ⟨htake, hdrop⟩ := run (r := '\n' :: rest) hbody (by simp)
      rw [List.append_assoc, List.singleton_append, htake, hdrop, stripLineEnd_concat,
        List.tail_cons]
  | last hbody _ hend =>
      subst hend
      obtain ⟨htake, hdrop⟩ := run (r := []) hbody (by simp)
      rw [htake, hdrop, List.tail_nil]

theorem exists_line {text : List Char} (h : text ≠ []) :
    ∃ line rest, text = line ++ rest ∧ IsLine line rest := by
  have hbody : '\n' ∉ text.takeWhile (· ≠ '\n') := fun hmem => by simpa using mem_takeWhile hmem
  have hsplit : text.takeWhile (· ≠ '\n') ++ text.dropWhile (· ≠ '\n') = text :=
    List.takeWhile_append_dropWhile
  have hhead := List.head?_dropWhile_not (· ≠ '\n') text
  revert hsplit hhead
  cases text.dropWhile (· ≠ '\n') with
  | nil =>
      intro hsplit _
      rw [List.append_nil] at hsplit
      exact ⟨text, [], (List.append_nil _).symm, .last (hsplit ▸ hbody) h rfl⟩
  | cons feed rest =>
      intro hsplit hhead
      obtain rfl : feed = '\n' := by simpa using hhead
      exact ⟨_, rest, by rw [List.append_assoc]; exact hsplit.symm, .ended hbody rfl⟩

theorem areLines_append : AreLines (lines ++ more) rest ↔
    AreLines lines (more.flatten ++ rest) ∧ AreLines more rest := by
  induction lines with
  | nil => simp [AreLines]
  | cons line lines ih => simp [AreLines, ih, and_assoc]

theorem linesText_singleton (line : List Char) : linesText [line] = lineText line :=
  String.intercalate_singleton

theorem linesText_concat (h : lines ≠ []) (line : List Char) :
    linesText (lines ++ [line]) = linesText lines ++ "\n" ++ lineText line := by
  induction lines with
  | nil => exact absurd rfl h
  | cons first lines ih =>
      cases lines with
      | nil => exact String.intercalate_cons_cons
      | cons second lines =>
          have hrest := ih (List.cons_ne_nil _ _)
          rw [linesText, linesText] at hrest ⊢
          simp only [List.cons_append, List.map_cons] at hrest ⊢
          rw [String.intercalate_cons_cons, hrest, String.intercalate_cons_cons]
          simp only [String.append_assoc]

end

namespace Session

/-- An entry: the line with which it begins, and the lines with which it goes on. -/
structure Entry where
  first : List Char
  more : List (List Char)

namespace Entry

def lines (e : Entry) : List (List Char) :=
  e.first :: e.more

def text (e : Entry) : String :=
  linesText e.lines

theorem flatMap_lines_append (e : Entry) (entries : List Entry) (more : List (List Char)) :
    (e :: entries).flatMap lines ++ more =
      e.first :: (e.more ++ (entries.flatMap lines ++ more)) := by
  rw [List.flatMap_cons, lines, List.cons_append, List.cons_append, List.append_assoc]

end Entry

/-- What is typed is divided into entries, perhaps a last line, and a rest that is not read.
The lines follow each other as they are typed.  An entry begins with a line that is not
blank; it is open before each of its later lines, and at its end only if nothing follows.
The last line is blank, and where there is none, everything is read. -/
structure IsDivision (typed : List Char) (entries : List Entry) (last : Option (List Char))
    (rest : List Char) : Prop where
  whole : typed = (entries.flatMap Entry.lines ++ last.toList).flatten ++ rest
  lines : AreLines (entries.flatMap Entry.lines ++ last.toList) rest
  begins : ∀ e ∈ entries, isBlankText (lineText e.first) = false
  goes_on : ∀ e ∈ entries, ∀ k, 0 < k → k < e.lines.length →
    isOpen (linesText (e.lines.take k)) = true
  closed : ∀ before e after, entries = before ++ e :: after → isOpen e.text = true →
    after = [] ∧ last = none ∧ rest = []
  blank : ∀ line ∈ last, isBlankText (lineText line) = true
  ended : last = none → rest = []

/-- When some lines of an entry have been read, the entry goes on with more lines of what is
typed. -/
inductive Gathers : (read : List (List Char)) → (typed : List Char) →
    (more : List (List Char)) → (rest : List Char) → Prop
  | closed {read : List (List Char)} {typed : List Char} (h : isOpen (linesText read) = false) :
      Gathers read typed [] typed
  | cut {read : List (List Char)} (h : isOpen (linesText read) = true) : Gathers read [] [] []
  | line {read more : List (List Char)} {line typed rest : List Char}
      (h : isOpen (linesText read) = true) (hline : IsLine line typed)
      (hmore : Gathers (read ++ [line]) typed more rest) :
      Gathers read (line ++ typed) (line :: more) rest

/-- How what is typed is divided, entry by entry. -/
inductive Divides : List Char → List Entry → Option (List Char) → List Char → Prop
  | ended : Divides [] [] none []
  | blank {line rest : List Char} (hline : IsLine line rest)
      (hblank : isBlankText (lineText line) = true) :
      Divides (line ++ rest) [] (some line) rest
  | entry {line typed typed' rest : List Char} {more : List (List Char)} {entries : List Entry}
      {last : Option (List Char)} (hline : IsLine line typed)
      (hbegins : isBlankText (lineText line) = false) (hmore : Gathers [line] typed more typed')
      (hrest : Divides typed' entries last rest) :
      Divides (line ++ typed) (⟨line, more⟩ :: entries) last rest

namespace Gathers

variable {read more : List (List Char)} {typed rest : List Char}

theorem whole (h : Gathers read typed more rest) : typed = more.flatten ++ rest := by
  induction h with
  | closed | cut => rfl
  | line _ _ _ ih => rw [List.flatten_cons, List.append_assoc, ← ih]

theorem lines (h : Gathers read typed more rest) : AreLines more rest := by
  induction h with
  | closed | cut => trivial
  | line _ hline hmore ih => exact ⟨hmore.whole ▸ hline, ih⟩

theorem goes_on (h : Gathers read typed more rest) :
    ∀ k, k < more.length → isOpen (linesText (read ++ more.take k)) = true := by
  induction h with
  | closed | cut => exact fun k hk => absurd hk (Nat.not_lt_zero k)
  | @line read more line typed rest hopen _ _ ih =>
      intro k hk
      cases k with
      | zero => rwa [List.take_zero, List.append_nil]
      | succ k =>
          have hrest := ih k (Nat.lt_of_succ_lt_succ hk)
          rwa [List.append_assoc] at hrest

theorem rest_of_open (h : Gathers read typed more rest)
    (hopen : isOpen (linesText (read ++ more)) = true) : rest = [] := by
  induction h with
  | closed hclosed =>
      rw [List.append_nil, hclosed] at hopen
      cases hopen
  | cut => rfl
  | line _ _ _ ih =>
      refine ih ?_
      rwa [List.append_assoc]

/-- The lines with which an entry goes on are known by where it is open. -/
theorem of_lines (hlines : AreLines more rest)
    (hopen : ∀ k, k < more.length → isOpen (linesText (read ++ more.take k)) = true)
    (hrest : isOpen (linesText (read ++ more)) = true → rest = []) :
    Gathers read (more.flatten ++ rest) more rest := by
  induction more generalizing read with
  | nil =>
      rw [List.append_nil] at hrest
      cases hread : isOpen (linesText read) with
      | false => exact .closed hread
      | true =>
          obtain rfl := hrest hread
          exact .cut hread
  | cons line more ih =>
      have hassoc (lines : List (List Char)) : read ++ [line] ++ lines = read ++ line :: lines :=
        List.append_assoc read [line] lines
      rw [List.flatten_cons, List.append_assoc]
      refine .line ?_ hlines.1 (ih hlines.2 (fun k hk => ?_) ?_)
      · have hread := hopen 0 (Nat.succ_pos _)
        rwa [List.take_zero, List.append_nil] at hread
      · rw [hassoc, ← List.take_succ_cons]
        exact hopen (k + 1) (Nat.succ_lt_succ hk)
      · rwa [hassoc]

theorem total (read : List (List Char)) (typed : List Char) :
    ∃ more rest, Gathers read typed more rest := by
  induction typed using length_induction generalizing read with
  | step typed ih =>
      cases hopen : isOpen (linesText read) with
      | false => exact ⟨[], typed, .closed hopen⟩
      | true =>
          by_cases hnil : typed = []
          · subst hnil
            exact ⟨[], [], .cut hopen⟩
          · obtain ⟨line, typed, rfl, hline⟩ := exists_line hnil
            obtain ⟨more, rest, hmore⟩ := ih typed hline.length_lt (read ++ [line])
            exact ⟨line :: more, rest, .line hopen hline hmore⟩

end Gathers

namespace Divides

variable {typed rest : List Char} {entries : List Entry} {last : Option (List Char)}

theorem total (typed : List Char) : ∃ entries last rest, Divides typed entries last rest := by
  induction typed using length_induction with
  | step typed ih =>
      by_cases hnil : typed = []
      · subst hnil
        exact ⟨[], none, [], .ended⟩
      · obtain ⟨line, typed, rfl, hline⟩ := exists_line hnil
        cases hblank : isBlankText (lineText line) with
        | true => exact ⟨[], some line, typed, .blank hline hblank⟩
        | false =>
            obtain ⟨more, typed', hmore⟩ := Gathers.total [line] typed
            have hlt : typed'.length < (line ++ typed).length := by
              have hle : typed'.length ≤ typed.length := by
                rw [hmore.whole, List.length_append]
                exact Nat.le_add_left _ _
              exact Nat.lt_of_le_of_lt hle hline.length_lt
            obtain ⟨entries, last, rest, hrest⟩ := ih typed' hlt
            exact ⟨⟨line, more⟩ :: entries, last, rest, .entry hline hblank hmore hrest⟩

/-- Where nothing is typed, there is nothing to divide. -/
theorem eq_nil (h : Divides typed entries last rest) (hnil : typed = []) :
    entries = [] ∧ last = none ∧ rest = [] := by
  cases h with
  | ended => exact ⟨rfl, rfl, rfl⟩
  | blank hline => exact absurd (List.append_eq_nil_iff.mp hnil).1 hline.ne_nil
  | entry hline => exact absurd (List.append_eq_nil_iff.mp hnil).1 hline.ne_nil

theorem isDivision (h : Divides typed entries last rest) : IsDivision typed entries last rest := by
  induction h with
  | ended => exact ⟨rfl, trivial, by simp, by simp, by simp, by simp, fun _ => rfl⟩
  | blank hline hblank =>
      refine ⟨by simp, ⟨by simpa using hline, trivial⟩, by simp, by simp, by simp, ?_, nofun⟩
      rintro _ ⟨⟩
      exact hblank
  | @entry line typed typed' rest more entries last hline hbegins hmore hrest ih =>
      have htyped : typed =
          (more ++ (entries.flatMap Entry.lines ++ last.toList)).flatten ++ rest := by
        rw [hmore.whole, ih.whole]
        simp only [List.flatten_append, List.append_assoc]
      refine ⟨?_, ?_, List.forall_mem_cons.mpr ⟨hbegins, ih.begins⟩,
        List.forall_mem_cons.mpr ⟨fun k hpos hk => ?_, ih.goes_on⟩,
        fun before e after hsplit hopen => ?_, ih.blank, ih.ended⟩
      · rw [Entry.flatMap_lines_append, List.flatten_cons, List.append_assoc, ← htyped]
      · rw [Entry.flatMap_lines_append]
        refine ⟨htyped ▸ hline, areLines_append.mpr ⟨?_, ih.lines⟩⟩
        rw [← ih.whole]
        exact hmore.lines
      · obtain ⟨k, rfl⟩ := Nat.exists_eq_succ_of_ne_zero (Nat.pos_iff_ne_zero.mp hpos)
        exact hmore.goes_on k (Nat.lt_of_succ_lt_succ hk)
      · rcases List.cons_eq_append_iff.mp hsplit with ⟨-, hsplit⟩ | ⟨before, -, hsplit⟩
        · obtain ⟨rfl, rfl⟩ := List.cons_eq_cons.mp hsplit
          exact hrest.eq_nil (hmore.rest_of_open hopen)
        · exact ih.closed before e after hsplit hopen

end Divides

namespace IsDivision

variable {typed rest : List Char} {e : Entry} {entries : List Entry} {last : Option (List Char)}

/-- What is typed after the first entry is divided into the other entries. -/
theorem tail (h : IsDivision typed (e :: entries) last rest) :
    IsDivision ((entries.flatMap Entry.lines ++ last.toList).flatten ++ rest) entries last
      rest where
  whole := rfl
  lines := by
    have hlines := h.lines
    rw [List.flatMap_cons, List.append_assoc, areLines_append] at hlines
    exact hlines.2
  begins := (List.forall_mem_cons.mp h.begins).2
  goes_on := (List.forall_mem_cons.mp h.goes_on).2
  closed before e' after hsplit := h.closed (e :: before) e' after (by rw [hsplit]; rfl)
  blank := h.blank
  ended := h.ended

/-- What is typed can be divided in no other way. -/
theorem divides (h : IsDivision typed entries last rest) : Divides typed entries last rest := by
  induction entries generalizing typed with
  | nil =>
      cases last with
      | none =>
          obtain rfl := h.ended rfl
          exact h.whole ▸ .ended
      | some line =>
          have hline : IsLine line rest := h.lines.1
          have htyped : typed = line ++ rest := by simpa using h.whole
          exact htyped ▸ .blank hline (h.blank line rfl)
  | cons e entries ih =>
      obtain ⟨first, more⟩ := e
      have htyped := h.whole
      have hlines := h.lines
      rw [Entry.flatMap_lines_append] at htyped hlines
      rw [List.flatten_cons, List.flatten_append, List.append_assoc, List.append_assoc] at htyped
      obtain ⟨hline, hmore⟩ := hlines
      rw [List.flatten_append, List.append_assoc] at hline
      have hgathers : Gathers [first] _ more _ := Gathers.of_lines (areLines_append.mp hmore).1
        (fun k hk => h.goes_on _ List.mem_cons_self (k + 1) k.succ_pos (Nat.succ_lt_succ hk))
        fun hopen => by
          obtain ⟨rfl, rfl, rfl⟩ := h.closed [] _ entries rfl hopen
          rfl
      exact htyped ▸ .entry hline (h.begins _ List.mem_cons_self) hgathers (ih h.tail)

end IsDivision

end Session

end MonkeyLang
