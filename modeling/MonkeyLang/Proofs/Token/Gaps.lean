import MonkeyLang.Proofs.Token.Tiling

/-!
# Gaps between tokens

No token goes over a gap but a string.  So if the quotes before a gap come in pairs,
the tokens of a text are those before the gap and those behind it, and it does not
matter how long the gap is and which characters it is made of.

Where a gap lies in no token, the quotes before it do come in pairs: otherwise the last
of them would begin a string, and the gap would be a part of it.
-/

namespace MonkeyLang

/-! ## Quotes -/

/-- The quotes in some characters come in pairs. -/
def QuotesPaired (cs : List Char) : Prop :=
  cs.count '"' % 2 = 0

instance (cs : List Char) : Decidable (QuotesPaired cs) :=
  inferInstanceAs (Decidable (_ = 0))

theorem quotesPaired_nil : QuotesPaired [] := rfl

theorem quotesPaired_of_notMem {w : List Char} (h : '"' ∉ w) : QuotesPaired w := by
  rw [QuotesPaired, List.count_eq_zero.mpr h]

theorem quotesPaired_closed {w : List Char} (hw : '"' ∉ w) :
    QuotesPaired ('"' :: (w ++ ['"'])) := by
  rw [QuotesPaired, List.count_cons, List.count_append, List.count_eq_zero.mpr hw]
  rfl

theorem QuotesPaired.append_iff {cs ds : List Char} (h : QuotesPaired cs) :
    QuotesPaired (cs ++ ds) ↔ QuotesPaired ds := by
  rw [QuotesPaired] at h
  rw [QuotesPaired, QuotesPaired, List.count_append]
  omega

theorem quotesPaired_gap {c : Char} (hc : isGap c = true) (cs : List Char) :
    QuotesPaired (c :: cs) ↔ QuotesPaired cs := by
  refine (quotesPaired_of_notMem (w := [c]) fun hmem => ?_).append_iff
  obtain rfl := List.mem_singleton.mp hmem
  exact absurd hc (by decide)

/-- Characters that go on with no word, no number and no sign: only a string can go over to
them from the characters before. -/
structure Detached (cs : List Char) : Prop where
  breaks : Breaks cs
  no_equal : cs.head? ≠ some '='

theorem detached_nil : Detached [] :=
  ⟨breaks_nil, nofun⟩

theorem detached_gap {c : Char} (hc : isGap c = true) (cs : List Char) : Detached (c :: cs) := by
  refine ⟨breaks_cons (isLetter_of_isGap hc) (isDigit_of_isGap hc) cs, ?_⟩
  rintro ⟨⟩
  cases hc

theorem detached_quote (cs : List Char) : Detached ('"' :: cs) := by
  refine ⟨breaks_cons ?_ (by decide) cs, nofun⟩
  rw [isLetter_ascii (by decide)]
  decide

namespace Lexeme

variable {before after : List Char} {l : Lexeme}

/-- A lexeme before the end of a text stands there if the text goes on. -/
theorem Stands.append (h : l.Stands before after) (hafter : after ≠ []) (more : List Char) :
    l.Stands before (after ++ more) := by
  have hhead : (after ++ more).head? = after.head? := by
    obtain ⟨c, after, rfl⟩ := List.exists_cons_of_ne_nil hafter
    rfl
  have run {p : Char → Bool} {w : List Char} (hrun : IsRun p before w after) :
      IsRun p before w (after ++ more) :=
    ⟨hrun.ne_nil, hrun.all, hrun.left, hhead ▸ hrun.right⟩
  cases h with
  | keyword hrun hkind => exact .keyword (run hrun) hkind
  | identifier hrun hkind => exact .identifier (run hrun) hkind
  | integer hrun => exact .integer (run hrun)
  | closed hw => exact .closed hw
  | unclosed hw hend => exact absurd hend hafter
  | pair hkind => exact .pair hkind
  | sign hkind halone => exact .sign hkind (hhead ▸ halone)
  | illegal hgap hletter hdigit hquote hsign => exact .illegal hgap hletter hdigit hquote hsign

/-- What is munched from a text is munched if the text goes on, as long as it still stands
there. -/
theorem munch_append_of_stands {c : Char} {cs more : List Char}
    (h : (munch c cs).1.Stands [] ((munch c cs).2 ++ more)) :
    munch c (cs ++ more) = ((munch c cs).1, (munch c cs).2 ++ more) := by
  have hwhole := munch_append c cs
  generalize munch c cs = munched at h hwhole ⊢
  obtain ⟨l, after⟩ := munched
  obtain ⟨d, ds, htext, -, hmunch⟩ := h.munch
  have hcons : c :: (cs ++ more) = d :: ds := by
    rw [← htext, ← List.append_assoc, hwhole]
    rfl
  obtain ⟨rfl, rfl⟩ := List.cons.inj hcons
  exact hmunch

/-- Only a string that is open at the end of a text has a quote without another one. -/
theorem Stands.quotesPaired_or_open (h : l.Stands before after) :
    QuotesPaired l.text ∨
      after = [] ∧ ∃ w, '"' ∉ w ∧ l = ⟨.string, String.ofList w, '"' :: w⟩ := by
  have word {w : List Char} (hrun : IsRun isLetter before w after) : QuotesPaired w :=
    quotesPaired_of_notMem fun hmem => absurd (hrun.all _ hmem) <| by
      rw [isLetter_ascii (by decide)]
      decide
  cases h with
  | keyword hrun hkind => exact .inl (word hrun)
  | identifier hrun hkind => exact .inl (word hrun)
  | integer hrun =>
      exact .inl (quotesPaired_of_notMem fun hmem => absurd (hrun.all _ hmem) (by decide))
  | closed hw => exact .inl (quotesPaired_closed hw)
  | @unclosed w hw hend => exact .inr ⟨hend, w, hw, rfl⟩
  | @pair c kind hkind =>
      refine .inl (quotesPaired_of_notMem (w := [c, '=']) fun hmem => ?_)
      obtain rfl : '"' = c := by simpa using hmem
      cases hkind
  | @sign c kind hkind halone =>
      refine .inl (quotesPaired_of_notMem (w := [c]) fun hmem => ?_)
      obtain rfl := List.mem_singleton.mp hmem
      cases hkind
  | @illegal c hgap hletter hdigit hquote hsign =>
      exact .inl <| quotesPaired_of_notMem (w := [c]) fun hmem =>
        hquote (List.mem_singleton.mp hmem).symm

theorem Stands.quotesPaired (h : l.Stands before after) (hafter : after ≠ []) :
    QuotesPaired l.text :=
  h.quotesPaired_or_open.resolve_right fun hopen => hafter hopen.1

/-- A lexeme stands before what goes on with no token, and a string that is open stands at the
end. -/
theorem Stands.detach (h : l.Stands before after) {more : List Char} (hmore : Detached more)
    (hopen : QuotesPaired l.text ∨ more = []) : l.Stands before more := by
  have run {p : Char → Bool} {w : List Char} (hrun : IsRun p before w after)
      (hp : ∀ c ∈ more.head?, p c = false) : IsRun p before w more :=
    ⟨hrun.ne_nil, hrun.all, hrun.left, hp⟩
  cases h with
  | keyword hrun hkind => exact .keyword (run hrun fun c hc => (hmore.breaks c hc).1) hkind
  | identifier hrun hkind => exact .identifier (run hrun fun c hc => (hmore.breaks c hc).1) hkind
  | integer hrun => exact .integer (run hrun fun c hc => (hmore.breaks c hc).2)
  | closed hw => exact .closed hw
  | unclosed hw hend =>
      rw [QuotesPaired, List.count_cons, List.count_eq_zero.mpr hw] at hopen
      exact .unclosed hw (hopen.resolve_left (by decide))
  | pair hkind => exact .pair hkind
  | sign hkind halone => exact .sign hkind (.inr hmore.no_equal)
  | illegal hgap hletter hdigit hquote hsign => exact .illegal hgap hletter hdigit hquote hsign

/-- If the quotes in a text come in pairs, they do so in its first token and behind it: only the
last token could be an open string. -/
theorem quotesPaired_munch {c : Char} {cs : List Char} (hc : isGap c = false)
    (h : QuotesPaired (c :: cs)) :
    QuotesPaired (munch c cs).1.text ∧ QuotesPaired (munch c cs).2 := by
  have hstands := stands_munch hc (seam_nil (c :: cs))
  rw [← munch_append c cs] at h
  by_cases hnil : (munch c cs).2 = []
  · rw [hnil, List.append_nil] at h
    exact ⟨h, hnil ▸ quotesPaired_nil⟩
  · have hl := hstands.quotesPaired hnil
    exact ⟨hl, hl.append_iff.mp h⟩

/-- What is munched stands there if the text goes on with no token. -/
theorem stands_munch_append {c : Char} {cs more : List Char} (hc : isGap c = false)
    (hl : QuotesPaired (munch c cs).1.text) (hmore : Detached more) :
    (munch c cs).1.Stands [] ((munch c cs).2 ++ more) := by
  have hstands := stands_munch hc (seam_nil (c :: cs))
  by_cases hnil : (munch c cs).2 = []
  · rw [hnil]
    exact hstands.detach hmore (.inl hl)
  · exact hstands.append hnil more

end Lexeme

/-! ## Gaps -/

/-- A gap, of at least one character. -/
structure IsGapText (w : List Char) : Prop where
  ne_nil : w ≠ []
  all : ∀ c ∈ w, isGap c = true

theorem bareTokens_gaps {w : List Char} (hw : ∀ c ∈ w, isGap c = true) (cs : List Char) :
    bareTokens (w ++ cs) = bareTokens cs := by
  induction w with
  | nil => rfl
  | cons c w ih =>
      rw [List.cons_append, bareTokens_gap (hw c List.mem_cons_self)]
      exact ih fun d hd => hw d (List.mem_cons_of_mem _ hd)

/-- The tokens of a text are those of the characters up to some place and those of the characters
behind it, if no token goes over this place. -/
theorem Cursor.tokens_append {before more : List Char} (hbefore : QuotesPaired before)
    (hmore : Detached more) (p : Place) :
    tokens ⟨p, before ++ more⟩ = tokens ⟨p, before⟩ ++ tokens ⟨p.after before, more⟩ := by
  induction hn : before.length using Nat.strongRecOn generalizing before p with
  | ind n ih =>
      cases before with
      | nil =>
          rw [tokens_nil]
          rfl
      | cons c cs =>
          cases hc : isGap c with
          | true =>
              rw [quotesPaired_gap hc] at hbefore
              rw [List.cons_append, tokens_gap hc, tokens_gap hc]
              exact ih _ (by simp [← hn]) hbefore (p.step c) rfl
          | false =>
              have hwhole := Lexeme.munch_append c cs
              have hlen := Lexeme.length_munch_lt c cs
              obtain ⟨hl, hrest⟩ := Lexeme.quotesPaired_munch hc hbefore
              rw [List.cons_append, tokens_munch hc, tokens_munch hc,
                Lexeme.munch_append_of_stands (Lexeme.stands_munch_append hc hl hmore),
                List.cons_append, ← hwhole, Place.after_append]
              exact congrArg _ (ih _ (by simp [← hn]; omega) hrest _ rfl)

/-- The tokens of a text are those before a gap and those behind it, if no string is open at
the gap. -/
theorem bareTokens_append_gap {before w : List Char} (hbefore : QuotesPaired before)
    (hw : IsGapText w) (after : List Char) :
    bareTokens (before ++ (w ++ after)) = bareTokens before ++ bareTokens after := by
  obtain ⟨d, w, rfl⟩ := List.exists_cons_of_ne_nil hw.ne_nil
  have hmore : Detached (d :: w ++ after) := detached_gap (hw.all d List.mem_cons_self) _
  have htokens := congrArg (List.map (Token.map fun _ => ()))
    (Cursor.tokens_append hbefore hmore Place.origin)
  rw [List.map_append] at htokens
  simp only [Cursor.tokens_bare] at htokens
  rw [htokens, bareTokens_gaps hw.all]

/-! ## Where a gap lies -/

/-- Some characters in a text are part of no token. -/
def LiesBetweenTokens (before w after : String) : Prop :=
  ∀ t ∈ tokens (before ++ w ++ after),
    t.pos.stop ≤ before.utf8ByteSize ∨ (before ++ w).utf8ByteSize ≤ t.pos.start

instance (before w after : String) : Decidable (LiesBetweenTokens before w after) :=
  inferInstanceAs (Decidable (∀ t ∈ tokens (before ++ w ++ after), _ ∨ _))

/-- Before characters that are part of no token, the quotes come in pairs. -/
theorem Cursor.quotesPaired_of_apart {before : List Char} (more : List Char) {n : Nat} (p : Place)
    (hmore : more ≠ []) (hn : p.offset + bytes before ≤ n)
    (h : ∀ t ∈ tokens ⟨p, before ++ more⟩,
      t.pos.stop ≤ p.offset + bytes before ∨ n ≤ t.pos.start) : QuotesPaired before := by
  induction hlen : before.length using Nat.strongRecOn generalizing before p with
  | ind m ih =>
      cases before with
      | nil => exact quotesPaired_nil
      | cons c cs =>
          cases hc : isGap c with
          | true =>
              rw [List.cons_append, tokens_gap hc] at h
              rw [quotesPaired_gap hc]
              rw [bytes_cons, ← Nat.add_assoc, ← Place.offset_step] at hn h
              exact ih _ (by simp [← hlen]) (p.step c) hn h rfl
          | false =>
              have hwhole := Lexeme.munch_append c (cs ++ more)
              have hstands := Lexeme.stands_munch hc (seam_nil (c :: (cs ++ more)))
              rw [List.cons_append, tokens_munch hc, List.forall_mem_cons] at h
              generalize Lexeme.munch c (cs ++ more) = munched at h hwhole hstands
              obtain ⟨l, rest⟩ := munched
              dsimp only at h hwhole hstands
              -- the token begins before the characters, so it ends before them
              have hpos := bytes_pos (List.cons_ne_nil c cs)
              have hstart : (l.at p).pos.start = p.offset := rfl
              have hstop : (l.at p).pos.stop = p.offset + bytes l.text := p.offset_after l.text
              have hle : bytes l.text ≤ bytes (c :: cs) := by
                have hfirst := h.1
                omega
              obtain ⟨cs', hcs, rfl⟩ := append_of_bytes_le hwhole hle
              have hl : QuotesPaired l.text := hstands.quotesPaired (by simp [hmore])
              have hlength := congrArg List.length hcs
              have htext := List.length_pos_iff.mpr hstands.text_ne_nil
              rw [List.length_append] at hlength
              rw [hcs, hl.append_iff]
              rw [hcs, bytes_append, ← Nat.add_assoc, ← Place.offset_after] at hn h
              exact ih _ (by omega) (p.after l.text) hn h.2 rfl

/-- A gap that is part of no token can be made another gap: the tokens stay the same, but for
their places. -/
theorem bareTokens_change_gap {before w w' after : String} (hw : IsGapText w.toList)
    (hw' : IsGapText w'.toList) (h : LiesBetweenTokens before w after) :
    bareTokens (before ++ w ++ after).toList = bareTokens (before ++ w' ++ after).toList := by
  have hpaired : QuotesPaired before.toList := by
    refine Cursor.quotesPaired_of_apart (w.toList ++ after.toList)
      (n := (before ++ w).utf8ByteSize) Place.origin ?_ ?_ fun t ht => ?_
    · simp [hw.ne_nil]
    · rw [bytes_toList, String.utf8ByteSize_append]
      exact Nat.le_trans (Nat.le_of_eq (Nat.zero_add _)) (Nat.le_add_right _ _)
    · rw [bytes_toList]
      refine (h t ?_).imp_left fun hle => Nat.le_trans hle (Nat.le_of_eq (Nat.zero_add _).symm)
      rw [tokens, Cursor.ofText, String.toList_append, String.toList_append, List.append_assoc]
      exact ht
  simp only [String.toList_append, List.append_assoc]
  rw [bareTokens_append_gap hpaired hw, bareTokens_append_gap hpaired hw']

end MonkeyLang
