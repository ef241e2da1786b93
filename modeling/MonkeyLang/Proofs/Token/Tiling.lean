import MonkeyLang.Proofs.Token.Apt
import MonkeyLang.Proofs.Token.Slices
import MonkeyLang.Proofs.Token.Spell

/-!
# The tokens of a text as its tiles

The tokens of a text are told by what they are and what lies between them, and not
by how they are found: each is a piece of the text that is a token where it stands
and that can go on neither to the left nor to the right, no two overlap, and
everything outside of them is a gap.  There is one way to tile a text like this.

The proof takes a text from its front, as the lexer does.  At each step either the
first character is a gap, and no tile begins with it, or it belongs to a tile, which
is the first one and the one that is munched.
-/

namespace MonkeyLang

/-- Some bytes of a text, from `start` up to but not including `stop`. -/
structure Span where
  start : Nat
  stop : Nat
  deriving DecidableEq, Repr

/-- The bytes that a token covers. -/
def Position.span (p : Position) : Span :=
  ⟨p.start, p.stop⟩

/-- A run of characters of a class, which goes on neither to the left nor to the
right. -/
structure IsRun (p : Char → Bool) (before run after : List Char) : Prop where
  ne_nil : run ≠ []
  all : ∀ c ∈ run, p c = true
  left : ∀ c ∈ before.getLast?, p c = false
  right : ∀ c ∈ after.head?, p c = false

namespace Lexeme

/-- The lexemes, and between which characters they stand. -/
inductive Stands (before after : List Char) : Lexeme → Prop
  | keyword {w : List Char} {kind : Kind} (hrun : IsRun isLetter before w after)
      (hkind : (String.ofList w, kind) ∈ Kind.keywords) : Stands before after (plain kind w)
  | identifier {w : List Char} (hrun : IsRun isLetter before w after)
      (hkind : ∀ kind, (String.ofList w, kind) ∉ Kind.keywords) :
      Stands before after (plain .identifier w)
  | integer {w : List Char} (hrun : IsRun Char.isDigit before w after) :
      Stands before after (plain .integer w)
  | closed {w : List Char} (hw : '"' ∉ w) :
      Stands before after ⟨.string, String.ofList w, '"' :: (w ++ ['"'])⟩
  | unclosed {w : List Char} (hw : '"' ∉ w) (hend : after = []) :
      Stands before after ⟨.string, String.ofList w, '"' :: w⟩
  | pair {c : Char} {kind : Kind} (hkind : Kind.ofSignEqual? c = some kind) :
      Stands before after (plain kind [c, '='])
  | sign {c : Char} {kind : Kind} (hkind : Kind.ofSign? c = some kind)
      (halone : Kind.ofSignEqual? c = none ∨ after.head? ≠ some '=') :
      Stands before after (plain kind [c])
  | illegal {c : Char} (hgap : isGap c = false) (hletter : isLetter c = false)
      (hdigit : c.isDigit = false) (hquote : c ≠ '"') (hsign : Kind.ofSign? c = none) :
      Stands before after (plain .illegal [c])

/-- The token that a lexeme is when some characters stand before it. -/
def spanning (l : Lexeme) (before : List Char) : Token Span :=
  ⟨l.kind, l.literal, ⟨bytes before, bytes (before ++ l.text)⟩⟩

end Lexeme

/-- Tokens tile the rest of a text, of which some characters are left out. -/
structure Tiles (before rest : List Char) (ts : List (Token Span)) : Prop where
  lexeme : ∀ t ∈ ts, ∃ (front : List Char) (l : Lexeme) (back : List Char),
    before ++ rest = front ++ l.text ++ back ∧ l.Stands front back ∧ t = l.spanning front
  span : ∀ t ∈ ts, bytes before ≤ t.pos.start ∧ t.pos.start < t.pos.stop
  apart : ts.Pairwise fun t u => t.pos.stop ≤ u.pos.start
  gap : ∀ front c back, rest = front ++ c :: back → isGap c = false →
    ∃ t ∈ ts, t.pos.start ≤ bytes (before ++ front) ∧ bytes (before ++ front) < t.pos.stop

/-! ## Which lexeme stands at a place -/

theorem Kind.ofWord_of_mem {word : String} {kind : Kind} (h : (word, kind) ∈ Kind.keywords) :
    Kind.ofWord word = kind := by
  have hlookup : ∀ e ∈ Kind.keywords, Kind.keywords.lookup e.1 = some e.2 := by decide
  rw [Kind.ofWord, hlookup _ h]
  rfl

theorem Kind.ofWord_of_notMem {word : String} (h : ∀ kind, (word, kind) ∉ Kind.keywords) :
    Kind.ofWord word = .identifier := by
  have hmem := Kind.ofWord_mem word
  rw [Kind.ofWord] at hmem ⊢
  cases hk : Kind.keywords.lookup word with
  | none => rfl
  | some kind =>
      obtain ⟨l₁, l₂, hl, -⟩ := List.lookup_eq_some_iff.mp hk
      refine absurd ?_ (h kind)
      rw [hl]
      exact List.mem_append_right _ List.mem_cons_self

/-- A sign that can go on with `=` is a sign. -/
theorem Kind.ofSignEqual?_of_ofSign? {c : Char} (h : Kind.ofSign? c = none) :
    Kind.ofSignEqual? c = none := by
  rw [Kind.ofSignEqual?.eq_def]
  split <;> first | rfl | cases h

namespace Lexeme

theorem munchString_unclosed {w : List Char} (hw : '"' ∉ w) :
    munchString w = (⟨.string, String.ofList w, '"' :: w⟩, []) := by
  obtain ⟨htake, hdrop⟩ := takeWhile_run (p := (· ≠ '"')) (r := [])
    (fun d hd => decide_eq_true fun h => hw (h ▸ hd)) (by simp)
  rw [List.append_nil] at htake hdrop
  rw [munchString, htake, hdrop]

variable {before after : List Char} {l : Lexeme}

/-- The lexeme that stands at the front of some characters is the one that is
munched. -/
theorem Stands.munch (h : l.Stands before after) :
    ∃ c cs, l.text ++ after = c :: cs ∧ isGap c = false ∧ Lexeme.munch c cs = (l, after) := by
  have word {w : List Char} (hrun : IsRun isLetter before w after) :
      ∃ c cs, w ++ after = c :: cs ∧ isGap c = false ∧
        Lexeme.munch c cs = (plain (Kind.ofWord (String.ofList w)) w, after) := by
    obtain ⟨c, w, rfl⟩ := List.exists_cons_of_ne_nil hrun.ne_nil
    have hc := hrun.all c List.mem_cons_self
    obtain ⟨htake, hdrop⟩ := takeWhile_run
      (fun d hd => hrun.all d (List.mem_cons_of_mem _ hd)) hrun.right
    refine ⟨c, w ++ after, rfl, isGap_of_isLetter hc, ?_⟩
    rw [munch_word hc, htake, hdrop]
  cases h with
  | keyword hrun hkind =>
      rw [← Kind.ofWord_of_mem hkind]
      exact word hrun
  | identifier hrun hkind =>
      rw [← Kind.ofWord_of_notMem hkind]
      exact word hrun
  | @integer w hrun =>
      obtain ⟨c, w, rfl⟩ := List.exists_cons_of_ne_nil hrun.ne_nil
      have hc := hrun.all c List.mem_cons_self
      obtain ⟨htake, hdrop⟩ := takeWhile_run
        (fun d hd => hrun.all d (List.mem_cons_of_mem _ hd)) hrun.right
      refine ⟨c, w ++ after, rfl, isGap_of_isDigit hc, ?_⟩
      rw [munch_digits hc, htake, hdrop]
  | @closed w hw =>
      refine ⟨'"', w ++ '"' :: after, by simp, rfl, ?_⟩
      rw [munch_string, munchString_closed hw]
  | @unclosed w hw hend =>
      subst hend
      refine ⟨'"', w, by simp, rfl, ?_⟩
      rw [munch_string, munchString_unclosed hw]
  | @pair c kind hkind =>
      obtain ⟨kind', hsign⟩ : ∃ kind', Kind.ofSign? c = some kind' := by
        cases hsign : Kind.ofSign? c with
        | none =>
            rw [Kind.ofSignEqual?_of_ofSign? hsign] at hkind
            cases hkind
        | some kind' => exact ⟨kind', rfl⟩
      obtain ⟨hgap, -, -, hmunch⟩ := munch_of_ofSign? hsign ('=' :: after)
      exact ⟨c, '=' :: after, rfl, hgap, hmunch.trans (munchSign_pair hkind after)⟩
  | @sign c kind hkind halone =>
      obtain ⟨hgap, -, -, hmunch⟩ := munch_of_ofSign? hkind after
      refine ⟨c, after, rfl, hgap, ?_⟩
      rw [hmunch, munchSign_alone halone, hkind]
      rfl
  | @illegal c hgap hletter hdigit hquote hsign =>
      refine ⟨c, after, rfl, hgap, ?_⟩
      rw [munch_sign hquote (Bool.eq_false_iff.mp hletter) (Bool.eq_false_iff.mp hdigit),
        munchSign_alone (.inl (Kind.ofSignEqual?_of_ofSign? hsign)), hsign]
      rfl

theorem Stands.text_ne_nil (h : l.Stands before after) : l.text ≠ [] := by
  obtain ⟨c, cs, -, -, hmunch⟩ := h.munch
  have hne := text_munch_ne_nil c cs
  rwa [hmunch] at hne

end Lexeme

/-- No word and no number goes on from one piece of a text to the next. -/
structure Seam (before rest : List Char) : Prop where
  letters : (∀ c ∈ before.getLast?, isLetter c = false) ∨ ∀ c ∈ rest.head?, isLetter c = false
  digits : (∀ c ∈ before.getLast?, c.isDigit = false) ∨ ∀ c ∈ rest.head?, c.isDigit = false

theorem seam_nil (rest : List Char) : Seam [] rest :=
  ⟨.inl (by simp), .inl (by simp)⟩

/-- A character that is in no word and no number ends the piece. -/
theorem seam_of_breaks {c : Char} (hletter : isLetter c = false) (hdigit : c.isDigit = false)
    (before rest : List Char) : Seam (before ++ [c]) rest := by
  refine ⟨.inl ?_, .inl ?_⟩
  all_goals
    intro d hd
    rw [List.getLast?_append, List.getLast?_singleton, Option.some_or] at hd
    obtain rfl := Option.some.inj hd
    assumption

theorem IsRun.getLast? {p : Char → Bool} {before run after : List Char}
    (h : IsRun p before run after) : ∀ c ∈ (before ++ run).getLast?, p c = true := by
  intro c hc
  obtain ⟨d, hd⟩ := List.getLast?_isSome.mpr h.ne_nil |> Option.isSome_iff_exists.mp
  rw [List.getLast?_append, hd, Option.some_or] at hc
  obtain rfl := Option.some.inj hc
  exact h.all d (List.mem_of_getLast? hd)

namespace Lexeme

variable {before after : List Char} {l : Lexeme}

theorem Stands.seam (h : l.Stands before after) : Seam (before ++ l.text) after := by
  have word {w : List Char} (hrun : IsRun isLetter before w after) : Seam (before ++ w) after := by
    refine ⟨.inr hrun.right, .inl fun c hc => ?_⟩
    have hletter := hrun.getLast? c hc
    cases hdigit : c.isDigit with
    | false => rfl
    | true => exact absurd hletter (by rw [isLetter_of_isDigit hdigit]; decide)
  have quote := seam_of_breaks (c := '"') (by rw [isLetter_ascii (by decide)]; decide) rfl
  cases h with
  | keyword hrun hkind => exact word hrun
  | identifier hrun hkind => exact word hrun
  | integer hrun =>
      exact ⟨.inl fun c hc => isLetter_of_isDigit (hrun.getLast? c hc), .inr hrun.right⟩
  | @closed w hw =>
      change Seam (before ++ ('"' :: w ++ ['"'])) after
      rw [← List.append_assoc]
      exact quote _ _
  | unclosed hw hend =>
      subst hend
      exact ⟨.inr (by simp), .inr (by simp)⟩
  | @pair c kind hkind =>
      change Seam (before ++ ([c] ++ ['='])) after
      rw [← List.append_assoc]
      exact seam_of_breaks (by rw [isLetter_ascii (by decide)]; decide) rfl _ _
  | sign hkind halone =>
      obtain ⟨-, hletter, hdigit, -⟩ := munch_of_ofSign? hkind []
      exact seam_of_breaks hletter hdigit _ _
  | illegal hgap hletter hdigit hquote hsign => exact seam_of_breaks hletter hdigit _ _

theorem stands_munchString (before cs : List Char) :
    (munchString cs).1.Stands before (munchString cs).2 := by
  have hinside : '"' ∉ cs.takeWhile (· ≠ '"') := fun h => by simpa using mem_takeWhile h
  rw [munchString]
  cases hclose : cs.dropWhile (· ≠ '"') with
  | nil => exact .unclosed hinside rfl
  | cons quote rest =>
      have hhead := List.head?_dropWhile_not (· ≠ '"') cs
      rw [hclose] at hhead
      obtain rfl : quote = '"' := by simpa using hhead
      exact .closed hinside

theorem stands_munchSign {c : Char} (hgap : isGap c = false) (hquote : c ≠ '"')
    (hletter : isLetter c = false) (hdigit : c.isDigit = false) (before cs : List Char) :
    (munchSign c cs).1.Stands before (munchSign c cs).2 := by
  by_cases hpair : Kind.ofSignEqual? c = none ∨ cs.head? ≠ some '='
  · rw [munchSign_alone hpair]
    cases hsign : Kind.ofSign? c with
    | none => exact .illegal hgap hletter hdigit hquote hsign
    | some kind => exact .sign hsign hpair
  · obtain ⟨hkind, hequal⟩ := not_or.mp hpair
    obtain ⟨kind, hkind⟩ := Option.ne_none_iff_exists'.mp hkind
    obtain ⟨cs, rfl⟩ := List.head?_eq_some_iff.mp (Decidable.not_not.mp hequal)
    rw [munchSign_pair hkind]
    exact .pair hkind

/-- What a run takes off the front of a text goes on neither way. -/
theorem isRun_takeWhile {p : Char → Bool} {c : Char} (hc : p c = true) {before cs : List Char}
    (hbefore : (∀ c ∈ before.getLast?, p c = false) ∨ ∀ d ∈ (c :: cs).head?, p d = false) :
    IsRun p before (c :: cs.takeWhile p) (cs.dropWhile p) := by
  refine ⟨List.cons_ne_nil _ _, ?_, ?_, ?_⟩
  · intro d hd
    rcases List.mem_cons.mp hd with rfl | hd
    · exact hc
    · exact mem_takeWhile hd
  · rcases hbefore with hbefore | hhead
    · exact hbefore
    · exact absurd hc (Bool.eq_false_iff.mp (hhead c rfl))
  · intro d hd
    have hhead := List.head?_dropWhile_not p cs
    rw [Option.mem_def.mp hd] at hhead
    exact hhead

/-- What is munched stands where it was found. -/
theorem stands_munch {c : Char} {cs : List Char} (hgap : isGap c = false)
    (hseam : Seam before (c :: cs)) : (munch c cs).1.Stands before (munch c cs).2 := by
  by_cases hquote : c = '"'
  · subst hquote
    rw [munch_string]
    exact stands_munchString before cs
  · by_cases hletter : isLetter c
    · have hrun := isRun_takeWhile hletter hseam.letters
      rw [munch_word hletter]
      by_cases hkind : ∃ kind, (String.ofList (c :: cs.takeWhile isLetter), kind) ∈ Kind.keywords
      · obtain ⟨kind, hkind⟩ := hkind
        rw [Kind.ofWord_of_mem hkind]
        exact .keyword hrun hkind
      · rw [Kind.ofWord_of_notMem fun kind hmem => hkind ⟨kind, hmem⟩]
        exact .identifier hrun fun kind hmem => hkind ⟨kind, hmem⟩
    · by_cases hdigit : c.isDigit
      · rw [munch_digits hdigit]
        exact .integer (isRun_takeWhile hdigit hseam.digits)
      · rw [munch_sign hquote hletter hdigit]
        exact stands_munchSign hgap hquote (Bool.eq_false_iff.mpr hletter)
          (Bool.eq_false_iff.mpr hdigit) before cs

end Lexeme

/-! ## Pieces of a text by their bytes -/

theorem bytes_pos {cs : List Char} (h : cs ≠ []) : 0 < bytes cs := by
  obtain ⟨c, cs, rfl⟩ := List.exists_cons_of_ne_nil h
  have hpos := c.utf8Size_pos
  rw [bytes_cons]
  omega

/-- Of two fronts of a text, the one with more bytes goes on with the other. -/
theorem append_of_bytes_le {a b c d : List Char} (h : a ++ b = c ++ d) (hle : bytes a ≤ bytes c) :
    ∃ m, c = a ++ m ∧ b = m ++ d := by
  rcases List.append_eq_append_iff.mp h with hlong | ⟨m, rfl, rfl⟩
  · exact hlong
  · have hm : m = [] := by
      refine Decidable.byContradiction fun hne => ?_
      have hpos := bytes_pos hne
      rw [bytes_append] at hle
      omega
    subst hm
    exact ⟨[], by simp, rfl⟩

/-- A front of a text is known by the number of its bytes. -/
theorem append_of_bytes_eq {a b c d : List Char} (h : a ++ b = c ++ d) (heq : bytes a = bytes c) :
    a = c ∧ b = d := by
  obtain ⟨m, rfl, rfl⟩ := append_of_bytes_le h (Nat.le_of_eq heq)
  have hm : m = [] := by
    refine Decidable.byContradiction fun hne => ?_
    have hpos := bytes_pos hne
    rw [bytes_append] at heq
    omega
  subst hm
  exact ⟨by simp, rfl⟩

/-! ## One character, one tile at a time -/

variable {before rest cs : List Char} {c : Char} {ts : List (Token Span)}

theorem tiles_nil : Tiles before [] ts ↔ ts = [] := by
  constructor
  · intro h
    refine List.eq_nil_iff_forall_not_mem.mpr fun t ht => ?_
    obtain ⟨front, l, back, hwhole, -, rfl⟩ := h.lexeme t ht
    obtain ⟨hstart, hstop⟩ := h.span _ ht
    have hbytes := congrArg bytes hwhole
    rw [bytes_append (front ++ l.text), List.append_nil] at hbytes
    change bytes before ≤ bytes front at hstart
    change bytes front < bytes (front ++ l.text) at hstop
    omega
  · rintro rfl
    refine ⟨by simp, by simp, .nil, ?_⟩
    intro front c back hrest
    simp at hrest

/-- A tile begins where a text is taken up only if the character there is no gap. -/
theorem Tiles.lt_start (h : Tiles before (c :: cs) ts) (hc : isGap c = true) :
    ∀ t ∈ ts, bytes (before ++ [c]) ≤ t.pos.start := by
  intro t ht
  obtain ⟨front, l, back, hwhole, hstands, rfl⟩ := h.lexeme t ht
  have hstart : bytes before ≤ bytes front := (h.span _ ht).1
  rw [List.append_assoc] at hwhole
  obtain ⟨m, rfl, hrest⟩ := append_of_bytes_le hwhole hstart
  cases m with
  | nil =>
      obtain ⟨d, ds, htext, hgap, -⟩ := hstands.munch
      rw [List.nil_append, htext] at hrest
      obtain rfl := (List.cons.inj hrest).1
      exact absurd hc (Bool.eq_false_iff.mp hgap)
  | cons d m =>
      obtain rfl := (List.cons.inj hrest).1
      change bytes (before ++ [c]) ≤ bytes (before ++ c :: m)
      rw [List.append_cons before c m, bytes_append _ m]
      exact Nat.le_add_right _ _

theorem tiles_gap (hc : isGap c = true) :
    Tiles before (c :: cs) ts ↔ Tiles (before ++ [c]) cs ts := by
  constructor
  · intro h
    refine ⟨?_, fun t ht => ⟨h.lt_start hc t ht, (h.span t ht).2⟩, h.apart, ?_⟩
    · rw [← List.append_cons]
      exact h.lexeme
    · intro front d back hrest hd
      rw [← List.append_cons]
      exact h.gap (c :: front) d back (congrArg _ hrest) hd
  · intro h
    refine ⟨?_, fun t ht => ⟨?_, (h.span t ht).2⟩, h.apart, ?_⟩
    · rw [List.append_cons]
      exact h.lexeme
    · refine Nat.le_trans ?_ (h.span t ht).1
      rw [bytes_append]
      exact Nat.le_add_right _ _
    · intro front d back hrest hd
      cases front with
      | nil =>
          obtain rfl := (List.cons.inj hrest).1
          exact absurd hc (Bool.eq_false_iff.mp hd)
      | cons e front =>
          obtain ⟨rfl, hcs⟩ := List.cons.inj hrest
          rw [List.append_cons]
          exact h.gap front d back hcs hd

/-- The tile with the character where a text is taken up begins with it. -/
theorem Tiles.first (h : Tiles before (c :: cs) ts) (hc : isGap c = false) :
    (Lexeme.munch c cs).1.spanning before ∈ ts := by
  obtain ⟨t, ht, hstart, -⟩ := h.gap [] c cs rfl hc
  obtain ⟨front, l, back, hwhole, hstands, rfl⟩ := h.lexeme t ht
  rw [List.append_nil] at hstart
  have heq : bytes before = bytes front := Nat.le_antisymm (h.span _ ht).1 hstart
  rw [List.append_assoc] at hwhole
  obtain ⟨rfl, hrest⟩ := append_of_bytes_eq hwhole heq
  obtain ⟨d, ds, htext, -, hmunch⟩ := hstands.munch
  obtain ⟨rfl, rfl⟩ := List.cons.inj (hrest.trans htext)
  rw [hmunch]
  exact ht

/-- The first of some tiles is the one that is munched, and the others tile what
follows. -/
theorem Tiles.eq_cons (h : Tiles before (c :: cs) ts) (hc : isGap c = false) :
    ∃ us, ts = (Lexeme.munch c cs).1.spanning before :: us ∧
      Tiles (before ++ (Lexeme.munch c cs).1.text) (Lexeme.munch c cs).2 us := by
  have hfirst := h.first hc
  have hwhole := Lexeme.munch_append c cs
  generalize Lexeme.munch c cs = munched at hfirst hwhole ⊢
  obtain ⟨l, after⟩ := munched
  dsimp only at hfirst hwhole ⊢
  have hstart : (l.spanning before).pos.start = bytes before := rfl
  have hstop : (l.spanning before).pos.stop = bytes (before ++ l.text) := rfl
  cases ts with
  | nil => simp at hfirst
  | cons t us =>
      have hapart := List.pairwise_cons.mp h.apart
      obtain rfl : l.spanning before = t := by
        rcases List.mem_cons.mp hfirst with heq | hlater
        · exact heq
        · -- a tile before it would end where the text is taken up
          have hle := hapart.1 _ hlater
          have hspan := h.span t List.mem_cons_self
          omega
      refine ⟨us, rfl, fun u hu => ?_, fun u hu => ⟨?_, ?_⟩, hapart.2, ?_⟩
      · rw [List.append_assoc, hwhole]
        exact h.lexeme u (List.mem_cons_of_mem _ hu)
      · exact hapart.1 u hu
      · exact (h.span u (List.mem_cons_of_mem _ hu)).2
      · intro front d back hafter hd
        obtain ⟨u, hu, hle, hlt⟩ := h.gap (l.text ++ front) d back
          (by rw [← hwhole, hafter, List.append_assoc]) hd
        rw [← List.append_assoc] at hle hlt
        rcases List.mem_cons.mp hu with rfl | hu
        · rw [hstop, bytes_append _ front] at hlt
          omega
        · exact ⟨u, hu, hle, hlt⟩

theorem Tiles.cons {l : Lexeme} {after : List Char} (hstands : l.Stands before after)
    (hwhole : l.text ++ after = rest) (h : Tiles (before ++ l.text) after ts) :
    Tiles before rest (l.spanning before :: ts) := by
  subst hwhole
  have hpos := bytes_pos hstands.text_ne_nil
  have hsum := bytes_append before l.text
  refine ⟨?_, ?_, List.pairwise_cons.mpr ⟨fun u hu => (h.span u hu).1, h.apart⟩, ?_⟩
  · rw [← List.append_assoc]
    intro t ht
    rcases List.mem_cons.mp ht with rfl | ht
    · exact ⟨before, l, after, rfl, hstands, rfl⟩
    · exact h.lexeme t ht
  · intro t ht
    rcases List.mem_cons.mp ht with rfl | ht
    · change bytes before ≤ bytes before ∧ bytes before < bytes (before ++ l.text)
      omega
    · have hspan := h.span t ht
      omega
  · intro front d back hrest hd
    by_cases hlt : bytes front < bytes l.text
    · refine ⟨_, List.mem_cons_self, ?_, ?_⟩
      · change bytes before ≤ bytes (before ++ front)
        rw [bytes_append]
        omega
      · change bytes (before ++ front) < bytes (before ++ l.text)
        rw [bytes_append]
        omega
    · obtain ⟨m, rfl, hafter⟩ := append_of_bytes_le hrest (Nat.le_of_not_lt hlt)
      obtain ⟨t, ht, hspan⟩ := h.gap m d back hafter hd
      rw [← List.append_assoc]
      exact ⟨t, List.mem_cons_of_mem _ ht, hspan⟩

theorem tiles_munch (hc : isGap c = false) (hseam : Seam before (c :: cs)) :
    Tiles before (c :: cs) ts ↔ ∃ us, ts = (Lexeme.munch c cs).1.spanning before :: us ∧
      Tiles (before ++ (Lexeme.munch c cs).1.text) (Lexeme.munch c cs).2 us := by
  constructor
  · intro h
    exact h.eq_cons hc
  · rintro ⟨us, rfl, h⟩
    exact h.cons (Lexeme.stands_munch hc hseam) (Lexeme.munch_append c cs)

/-! ## The tokens that are found -/

theorem Place.offset_step (p : Place) (c : Char) : (p.step c).offset = p.offset + c.utf8Size := by
  rw [Place.step]
  split <;> rfl

theorem Place.offset_after (p : Place) (cs : List Char) :
    (p.after cs).offset = p.offset + bytes cs := by
  induction cs generalizing p with
  | nil => rfl
  | cons c cs ih =>
      rw [Place.after_cons, ih, Place.offset_step, bytes_cons, Nat.add_assoc]

theorem Lexeme.span_at (l : Lexeme) {p : Place} (hp : p.offset = bytes before) :
    (l.at p).map Position.span = l.spanning before := by
  rw [Lexeme.spanning, bytes_append, ← hp, ← Place.offset_after]
  rfl

namespace Cursor

/-- The tokens that a cursor gives are the tiles of the text from there on. -/
theorem tiles_iff {p : Place} (hp : p.offset = bytes before) (hseam : Seam before rest) :
    Tiles before rest ts ↔ ts = (tokens ⟨p, rest⟩).map (Token.map Position.span) := by
  induction hn : rest.length using Nat.strongRecOn generalizing before rest ts p with
  | ind n ih =>
      cases rest with
      | nil =>
          rw [tiles_nil, tokens_nil]
          rfl
      | cons c cs =>
          cases hc : isGap c with
          | true =>
              have hstep : (p.step c).offset = bytes (before ++ [c]) := by
                rw [Place.offset_step, bytes_append, bytes_singleton, hp]
              rw [tiles_gap hc, tokens_gap hc]
              exact ih _ (by simp [← hn]) hstep
                (seam_of_breaks (isLetter_of_isGap hc) (isDigit_of_isGap hc) _ _) rfl
          | false =>
              have hafter : (p.after (Lexeme.munch c cs).1.text).offset =
                  bytes (before ++ (Lexeme.munch c cs).1.text) := by
                rw [Place.offset_after, bytes_append, hp]
              have hlen := Lexeme.length_munch_lt c cs
              have hrest (us : List (Token Span)) :
                  Tiles (before ++ (Lexeme.munch c cs).1.text) (Lexeme.munch c cs).2 us ↔ _ :=
                ih _ (by simp [← hn]; omega) hafter (Lexeme.stands_munch hc hseam).seam rfl
              rw [tiles_munch hc hseam, tokens_munch hc, List.map_cons, Lexeme.span_at _ hp]
              constructor
              · rintro ⟨us, rfl, hus⟩
                rw [(hrest us).mp hus]
              · rintro rfl
                exact ⟨_, rfl, (hrest _).mpr rfl⟩

/-- After its last token, a text gives its end for ever. -/
theorem stream_tokens (k : Cursor) (n : Nat) :
    k.stream (k.tokens.length + n) = k.tokens ++ List.replicate n k.atEnd.place.endToken := by
  have hends (m : Nat) (p : Place) : stream m ⟨p, []⟩ = List.replicate m p.endToken := by
    induction m with
    | zero => rfl
    | succ m ih =>
        rw [stream, List.replicate_succ, ← ih]
        rfl
  induction hn : k.rest.length using Nat.strongRecOn generalizing k with
  | ind m ih =>
      rcases k.next_cases with hend | ⟨hkind, hend⟩
      · have htokens : k.tokens = [] := by
          rw [tokens, hend]
          rfl
        rw [htokens, List.length_nil, Nat.zero_add, List.nil_append]
        cases n with
        | zero => rfl
        | succ n =>
            rw [stream, hend, List.replicate_succ]
            exact congrArg _ (hends n _)
      · have hlt : k.next.2.rest.length < m := by
          rw [← hn]
          exact length_nextFrom_lt _ _ hkind
        rw [tokens, if_neg hkind, List.length_cons, Nat.add_right_comm, stream, ih _ hlt _ rfl,
          hend]
        rfl

theorem kind_ne_eof (k : Cursor) : ∀ t ∈ k.tokens, t.kind ≠ .eof := by
  induction k using tokens.induct with
  | case1 k hend =>
      rw [tokens, if_pos hend]
      simp
  | case2 k hkind ih =>
      rw [tokens, if_neg hkind]
      exact List.forall_mem_cons.mpr ⟨hkind, ih⟩

end Cursor

/-- The tokens of a text are the one way to tile it: each stands where it is as a token
of the language, no two overlap, and only gaps are left over.  Behind them comes the
end, which covers one byte past the last, however often the text is asked for a token.
Going through the text by its bytes finds the same, and asks for no slice that is not
there. -/
theorem tokens_tile_the_text (source : String) :
    (∀ ts, Tiles [] source.toList ts ↔ ts = (tokens source).map (Token.map Position.span)) ∧
    ((∀ t ∈ tokens source, t.kind ≠ .eof) ∧
      (endToken source).map Position.span =
        ⟨.eof, "", ⟨source.utf8ByteSize, source.utf8ByteSize + 1⟩⟩ ∧
      tokenize source = tokens source ++ [endToken source] ∧
      ∀ n, (Cursor.ofText source).stream ((tokens source).length + n) =
        tokens source ++ List.replicate n (endToken source)) ∧
    (Scanner.ofText source).bind Scanner.tokens? = some (tokenize source) ∧
    ∀ n, (Scanner.ofText source).bind (Scanner.stream n) =
      some ((Cursor.ofText source).stream n) := by
  refine ⟨fun ts => Cursor.tiles_iff rfl (seam_nil _), ⟨Cursor.kind_ne_eof _, ?_, rfl,
    Cursor.stream_tokens _⟩, Scanner.tokens?_ofText source, Scanner.stream_ofText source⟩
  have hoffset : (Place.origin.after source.toList).offset = source.utf8ByteSize := by
    rw [Place.offset_after, bytes, String.ofList_toList]
    exact Nat.zero_add _
  rw [endToken, Place.endToken, hoffset]
  rfl

end MonkeyLang
