import MonkeyLang.Proofs.Token.Gaps
import MonkeyLang.Proofs.Token.Lines

/-!
# Texts with a gap between them

What the tokens of two texts become when the texts are joined with a gap between them depends
on one thing only: whether the quotes in the first text come in pairs.  If they do, the tokens
are those of the one text and then those of the other, which have moved on by what is before
them.  If they do not, the last token of the first text is a string that is still open, and it
goes on over the gap to the first quote of the other text.

So the tokens of a text can be written apart: when their texts are joined by spaces, and the
last one is closed if it is an open string, the same tokens are found again.
-/

namespace MonkeyLang

/-! ## Moving on -/

/-- A place in a text, when another text that ends at `p` is put in front. -/
def Place.behind (p q : Place) : Place :=
  ⟨p.offset + q.offset, p.line + (q.line - 1),
    if q.line = 1 then p.column + (q.column - 1) else q.column⟩

/-- The position of a token in a text, when another text that ends at `p` is put in front: it
moves on by the bytes and the lines of the other text, and on the first line by the columns. -/
def Position.behind (p : Place) (q : Position) : Position :=
  ⟨p.line + (q.line - 1), if q.line = 1 then p.column + (q.column - 1) else q.column,
    p.offset + q.start, p.offset + q.stop⟩

/-- Lines and columns are counted from one. -/
structure Place.Counted (q : Place) : Prop where
  line : 1 ≤ q.line
  column : 1 ≤ q.column

namespace Place

variable {p q : Place}

theorem counted_origin : origin.Counted :=
  ⟨Nat.le_refl 1, Nat.le_refl 1⟩

theorem Counted.step (hq : q.Counted) (c : Char) : (q.step c).Counted := by
  rw [Place.step]
  split
  · exact ⟨Nat.le_add_left 1 _, Nat.le_refl 1⟩
  · exact ⟨hq.line, Nat.le_add_left 1 _⟩

theorem Counted.after (hq : q.Counted) (cs : List Char) : (q.after cs).Counted := by
  induction cs generalizing q with
  | nil => exact hq
  | cons c cs ih => exact ih (hq.step c)

theorem behind_origin (p : Place) : p.behind origin = p := rfl

theorem step_behind (p : Place) (hq : q.Counted) (c : Char) :
    (p.behind q).step c = p.behind (q.step c) := by
  obtain ⟨offset, line, column⟩ := q
  obtain ⟨hline, hcolumn⟩ := hq
  dsimp only at hline hcolumn
  rw [step, step]
  split
  · have hlater : line + 1 ≠ 1 := by omega
    simp only [behind, if_neg hlater, Place.mk.injEq, and_true]
    omega
  · simp only [behind, Place.mk.injEq, true_and, Nat.add_assoc]
    split <;> omega

theorem after_behind (p : Place) (hq : q.Counted) (cs : List Char) :
    (p.behind q).after cs = p.behind (q.after cs) := by
  induction cs generalizing q with
  | nil => rfl
  | cons c cs ih => rw [after_cons, after_cons, step_behind p hq, ih (hq.step c)]

end Place

theorem Lexeme.at_behind (l : Lexeme) (p : Place) {q : Place} (hq : q.Counted) :
    l.at (p.behind q) = (l.at q).map (Position.behind p) := by
  rw [Lexeme.at, Place.after_behind p hq]
  rfl

/-- Tokens are the same when another text is put in front, but for their positions. -/
theorem Cursor.tokens_behind (p : Place) {q : Place} (hq : q.Counted) (cs : List Char) :
    tokens ⟨p.behind q, cs⟩ = (tokens ⟨q, cs⟩).map (Token.map (Position.behind p)) := by
  -- by the number of characters, of which each token takes some
  induction hn : cs.length using Nat.strongRecOn generalizing cs q with
  | ind n ih =>
      cases cs with
      | nil =>
          rw [tokens_nil, tokens_nil]
          rfl
      | cons c cs =>
          cases hc : isGap c with
          | true =>
              rw [tokens_gap hc, tokens_gap hc, Place.step_behind p hq]
              exact ih _ (by simp [← hn]) (hq.step c) cs rfl
          | false =>
              have hlen := Lexeme.length_munch_lt c cs
              rw [tokens_munch hc, tokens_munch hc, List.map_cons, Lexeme.at_behind _ p hq,
                Place.after_behind p hq]
              exact congrArg _ (ih _ (by simp [← hn]; omega) (hq.after _) _ rfl)

/-- The tokens of a text and its end, when another text is put in front. -/
theorem Cursor.tokens_end_behind (p : Place) (text : String) :
    tokens ⟨p, text.toList⟩ ++ [(p.after text.toList).endToken] =
      (tokenize text).map (Token.map (Position.behind p)) := by
  have htokens := tokens_behind p Place.counted_origin text.toList
  have hend := Place.after_behind p Place.counted_origin text.toList
  rw [Place.behind_origin] at htokens hend
  rw [htokens, hend, tokenize, List.map_append]
  rfl

/-! ## Where two texts meet -/

theorem Place.after_toList (text : String) : origin.after text.toList = endOf text := by
  rw [after_origin, String.ofList_toList]

/-- The place behind some text and then some more characters. -/
theorem Place.after_endOf {text whole : String} {cs : List Char}
    (hwhole : whole.toList = text.toList ++ cs) : (endOf text).after cs = endOf whole := by
  rw [← after_toList, ← after_append, ← hwhole, after_toList]

theorem Cursor.tokens_gaps {w : List Char} (hw : ∀ c ∈ w, isGap c = true) (p : Place)
    (cs : List Char) : tokens ⟨p, w ++ cs⟩ = tokens ⟨p.after w, cs⟩ := by
  induction w generalizing p with
  | nil => rfl
  | cons c w ih =>
      rw [List.cons_append, tokens_gap (hw c List.mem_cons_self)]
      exact ih (fun d hd => hw d (List.mem_cons_of_mem _ hd)) (p.step c)

/-- Where no string is open, the tokens of the other text come behind those of the first. -/
theorem tokenize_append_gap {before w : String} (hbefore : QuotesPaired before.toList)
    (hw : IsGapText w.toList) (after : String) :
    tokenize (before ++ w ++ after) =
      tokens before ++ (tokenize after).map
        (Token.map (Position.behind (Place.endOf (before ++ w)))) := by
  have hmore : Detached (w.toList ++ after.toList) := by
    obtain ⟨d, w', hcons⟩ := List.exists_cons_of_ne_nil hw.ne_nil
    rw [hcons]
    exact detached_gap (hw.all d (hcons ▸ List.mem_cons_self)) _
  have hmeet : (Place.origin.after before.toList).after w.toList =
      Place.endOf (before ++ w) := by
    rw [Place.after_toList]
    exact Place.after_endOf String.toList_append
  rw [tokenize, tokens, endToken, Cursor.ofText]
  simp only [String.toList_append, List.append_assoc, Place.after_append]
  rw [Cursor.tokens_append hbefore hmore, Cursor.tokens_gaps hw.all, List.append_assoc, hmeet,
    Cursor.tokens_end_behind]
  rfl

/-! ## Open strings -/

/-- A string with its opening quote behind `before`, which covers the text up to a byte. -/
def stringToken (before inside : String) (stop : Nat) : Token Position :=
  ⟨.string, inside, ⟨(Place.endOf before).line, (Place.endOf before).column,
    before.utf8ByteSize, stop⟩⟩

/-- A text in which the quotes do not come in pairs has a last quote, before which they do. -/
theorem exists_last_quote {text : String} (h : ¬QuotesPaired text.toList) :
    ∃ before inside, text = before ++ "\"" ++ inside ∧ QuotesPaired before.toList ∧
      '"' ∉ inside.toList := by
  have hmem : '"' ∈ text.toList.reverse := by
    rw [List.mem_reverse]
    exact Decidable.byContradiction fun hnot => h (quotesPaired_of_notMem hnot)
  obtain ⟨inside, before, hsplit, hinside⟩ := List.eq_append_cons_of_mem hmem
  have htext : text.toList = before.reverse ++ '"' :: inside.reverse := by
    rw [← List.reverse_reverse text.toList, hsplit]
    simp
  refine ⟨String.ofList before.reverse, String.ofList inside.reverse, ?_, ?_, ?_⟩
  · apply String.toList_inj.mp
    simp [htext]
  · rw [QuotesPaired, htext, List.count_append, List.count_cons_self,
      List.count_eq_zero.mpr fun hin => hinside (List.mem_reverse.mp hin)] at h
    rw [QuotesPaired, String.toList_ofList]
    omega
  · rw [String.toList_ofList, List.mem_reverse]
    exact hinside

/-- A string that begins where no other is open is the next token. -/
theorem Cursor.tokens_append_quote {before : String} (hbefore : QuotesPaired before.toList)
    (rest : List Char) :
    tokens ⟨Place.origin, before.toList ++ '"' :: rest⟩ =
      MonkeyLang.tokens before ++ (Lexeme.munchString rest).1.at (Place.endOf before) ::
        tokens ⟨(Place.endOf before).after (Lexeme.munchString rest).1.text,
          (Lexeme.munchString rest).2⟩ := by
  rw [tokens_append hbefore (detached_quote _), Place.after_toList, tokens_munch (by decide),
    Lexeme.munch_string]
  rfl

/-- The tokens of a text with an open string at its end. -/
theorem tokens_open {before : String} (hbefore : QuotesPaired before.toList) {inside : String}
    (hinside : '"' ∉ inside.toList) :
    tokens (before ++ "\"" ++ inside) =
      tokens before ++ [stringToken before inside (before ++ "\"" ++ inside).utf8ByteSize] := by
  have htext : (before ++ "\"" ++ inside).toList = before.toList ++ '"' :: inside.toList := by
    simp
  rw [tokens, Cursor.ofText, htext, Cursor.tokens_append_quote hbefore,
    Lexeme.munchString_unclosed hinside, Cursor.tokens_nil, Lexeme.at, Place.after_endOf htext,
    String.ofList_toList]
  rfl

/-- The tokens of a text that goes on behind the closing quote of a string. -/
theorem tokenize_closed {before : String} (hbefore : QuotesPaired before.toList) {inside : String}
    (hinside : '"' ∉ inside.toList) (after : String) :
    tokenize (before ++ "\"" ++ inside ++ "\"" ++ after) =
      tokens before ++ stringToken before inside (before ++ "\"" ++ inside ++ "\"").utf8ByteSize ::
        (tokenize after).map
          (Token.map (Position.behind (Place.endOf (before ++ "\"" ++ inside ++ "\"")))) := by
  have hfront : (before ++ "\"" ++ inside ++ "\"").toList =
      before.toList ++ '"' :: (inside.toList ++ ['"']) := by
    simp
  have hwhole : (before ++ "\"" ++ inside ++ "\"" ++ after).toList =
      before.toList ++ '"' :: (inside.toList ++ '"' :: after.toList) := by
    simp
  have htokens : tokens (before ++ "\"" ++ inside ++ "\"" ++ after) = tokens before ++
      stringToken before inside (before ++ "\"" ++ inside ++ "\"").utf8ByteSize ::
        Cursor.tokens ⟨Place.endOf (before ++ "\"" ++ inside ++ "\""), after.toList⟩ := by
    rw [tokens, Cursor.ofText, hwhole, Cursor.tokens_append_quote hbefore,
      Lexeme.munchString_closed hinside, Lexeme.at, Place.after_endOf hfront,
      String.ofList_toList]
    rfl
  rw [tokenize, htokens, endToken, String.toList_append, Place.after_append, Place.after_toList,
    List.append_assoc, List.cons_append, Cursor.tokens_end_behind]

/-- The first of two texts ends in an open string, and this goes on over the gap to the first
quote of the other text, behind which there are the tokens that follow it; or to the end, if the
other text has no quote. -/
structure StringGoesOn (first gap other before inside : String) : Prop where
  text : first = before ++ "\"" ++ inside
  paired : QuotesPaired before.toList
  no_quote : '"' ∉ inside.toList
  last : tokens first = tokens before ++ [stringToken before inside first.utf8ByteSize]
  closed : ∀ front back, other = front ++ "\"" ++ back → '"' ∉ front.toList →
    tokenize (first ++ gap ++ other) = tokens before ++
      stringToken before (inside ++ gap ++ front) (first ++ gap ++ front ++ "\"").utf8ByteSize ::
        (tokenize back).map
          (Token.map (Position.behind (Place.endOf (first ++ gap ++ front ++ "\""))))
  unclosed : '"' ∉ other.toList →
    tokenize (first ++ gap ++ other) = tokens before ++
      [stringToken before (inside ++ gap ++ other) (first ++ gap ++ other).utf8ByteSize,
        endToken (first ++ gap ++ other)]

theorem quote_notMem_append {text text' : String} (h : '"' ∉ text.toList)
    (h' : '"' ∉ text'.toList) : '"' ∉ (text ++ text').toList := by
  rw [String.toList_append, List.mem_append]
  exact not_or.mpr ⟨h, h'⟩

theorem stringGoesOn_of_open {before inside gap : String} (hbefore : QuotesPaired before.toList)
    (hinside : '"' ∉ inside.toList) (hgap : IsGapText gap.toList) (other : String) :
    StringGoesOn (before ++ "\"" ++ inside) gap other before inside := by
  have hgap : '"' ∉ gap.toList := fun hmem => absurd (hgap.all _ hmem) (by decide)
  have hseam (more : String) : before ++ "\"" ++ inside ++ gap ++ more =
      before ++ "\"" ++ (inside ++ gap ++ more) := by
    simp only [String.append_assoc]
  have hlong {more : String} (hmore : '"' ∉ more.toList) : '"' ∉ (inside ++ gap ++ more).toList :=
    quote_notMem_append (quote_notMem_append hinside hgap) hmore
  refine ⟨rfl, hbefore, hinside, tokens_open hbefore hinside, ?_, fun hother => ?_⟩
  · rintro front back rfl hfront
    have hclosed := tokenize_closed hbefore (hlong hfront) back
    rw [← hseam front] at hclosed
    rw [← hclosed]
    simp only [String.append_assoc]
  · rw [hseam, tokenize, tokens_open hbefore (hlong hother), List.append_assoc]
    rfl

/-! ## Tokens written apart -/

/-- A text with a quote behind it, if its quotes do not come in pairs. -/
def closeString (text : String) : String :=
  if QuotesPaired text.toList then text else text ++ "\""

/-- A text is one token and no gap, and no string is open at its end. -/
structure StandsAlone (text : String) (t : Token Unit) : Prop where
  paired : QuotesPaired text.toList
  tokens : bareTokens text.toList = [t]

namespace Lexeme

variable {before after : List Char} {l : Lexeme}

theorem Stands.bareTokens_text (h : l.Stands before []) : bareTokens l.text = [l.bare] := by
  obtain ⟨c, cs, htext, hgap, hmunch⟩ := h.munch
  rw [List.append_nil] at htext
  rw [htext, bareTokens_munch hgap, hmunch, bareTokens_nil]

/-- The text of a lexeme is the same token, once it is closed. -/
theorem Stands.standsAlone (h : l.Stands before after) :
    StandsAlone (closeString (String.ofList l.text)) l.bare := by
  rw [closeString, String.toList_ofList]
  rcases h.quotesPaired_or_open with hpaired | ⟨-, w, hw, rfl⟩
  · rw [if_pos hpaired]
    refine ⟨?_, ?_⟩ <;> rw [String.toList_ofList]
    · exact hpaired
    · exact (h.detach detached_nil (.inr rfl)).bareTokens_text
  · have hunpaired : ¬QuotesPaired ('"' :: w) := by
      rw [QuotesPaired, List.count_cons, List.count_eq_zero.mpr hw]
      decide
    have htext : (String.ofList ('"' :: w) ++ "\"").toList = '"' :: (w ++ ['"']) := by
      rw [String.toList_append, String.toList_ofList]
      rfl
    rw [if_neg hunpaired]
    refine ⟨?_, ?_⟩ <;> rw [htext]
    · exact quotesPaired_closed hw
    · rw [bareTokens_string hw, bareTokens_nil]
      rfl

end Lexeme

/-- Every token of a text covers a piece of it, which is the same token alone, once it is
closed. -/
theorem exists_text_of_token {source : String} {t : Token Position} (ht : t ∈ tokens source) :
    ∃ text, slice? source t.pos.start t.pos.stop = some text ∧
      StandsAlone (closeString text) (t.map fun _ => ()) := by
  have htiles := (Cursor.tiles_iff (p := Place.origin) rfl (seam_nil source.toList)).mpr rfl
  obtain ⟨front, l, back, hwhole, hstands, hspan⟩ := htiles.lexeme _ (List.mem_map_of_mem ht)
  rw [List.nil_append] at hwhole
  obtain ⟨kind, literal, pos⟩ := t
  obtain ⟨rfl, rfl, hpos⟩ := Token.mk.inj hspan
  obtain ⟨hstart, hstop⟩ := Span.mk.inj hpos
  refine ⟨String.ofList l.text, ?_, hstands.standsAlone⟩
  rw [← String.ofList_toList (s := source), hwhole, hstart, hstop]
  exact slice?_ofList front l.text back

/-- The texts of tokens, joined by spaces, are the same tokens. -/
theorem bareTokens_intercalate {texts : List String} {ts : List (Token Unit)}
    (h : List.Forall₂ StandsAlone texts ts) :
    bareTokens (" ".intercalate texts).toList = ts := by
  have hspace : IsGapText " ".toList := ⟨by decide, List.all_eq_true.mp (by decide)⟩
  induction h with
  | nil =>
      rw [String.intercalate_nil]
      exact bareTokens_nil
  | @cons text t texts ts htext hrest ih =>
      cases texts with
      | nil =>
          cases hrest
          rw [String.intercalate_singleton, htext.tokens]
      | cons text' texts =>
          rw [String.intercalate_cons_cons, String.toList_append, String.toList_append,
            List.append_assoc, bareTokens_append_gap htext.paired hspace, htext.tokens, ih]
          rfl

/-- The pieces of a text that its tokens cover give tokens of the same kinds and with the same
literals when they are joined by spaces, each of them closed. -/
structure WrittenApart (source : String) (texts : List String) : Prop where
  slices : (tokens source).map (fun t => slice? source t.pos.start t.pos.stop) = texts.map some
  tokens : (tokenize (" ".intercalate (texts.map closeString))).map
      (fun t => (t.kind, t.literal)) =
    (tokenize source).map fun t => (t.kind, t.literal)

theorem exists_writtenApart (source : String) : ∃ texts, WrittenApart source texts := by
  have hsplit : ∀ ts ⊆ tokens source, ∃ texts : List String,
      ts.map (fun t => slice? source t.pos.start t.pos.stop) = texts.map some ∧
      List.Forall₂ StandsAlone (texts.map closeString) (ts.map (Token.map fun _ => ())) := by
    intro ts hts
    induction ts with
    | nil => exact ⟨[], rfl, .nil⟩
    | cons t ts ih =>
        obtain ⟨text, hslice, halone⟩ := exists_text_of_token (hts List.mem_cons_self)
        obtain ⟨texts, hslices, hrest⟩ := ih fun u hu => hts (List.mem_cons_of_mem _ hu)
        refine ⟨text :: texts, ?_, .cons halone hrest⟩
        rw [List.map_cons, List.map_cons, hslice, hslices]
  obtain ⟨texts, hslices, halone⟩ := hsplit _ (List.Subset.refl _)
  have hbare : (tokens (" ".intercalate (texts.map closeString))).map (Token.map fun _ => ()) =
      (tokens source).map (Token.map fun _ => ()) := by
    rw [tokens_bare, bareTokens_intercalate halone]
  have hpairs := congrArg (List.map fun t : Token Unit => (t.kind, t.literal)) hbare
  rw [List.map_map, List.map_map] at hpairs
  refine ⟨texts, hslices, ?_⟩
  rw [tokenize, tokenize, List.map_append, List.map_append]
  exact congrArg (· ++ _) hpairs

/-! ## Two texts and a gap -/

/-- Where two texts are joined with a gap between them, the tokens of the first stay as they are
and those of the second move on by what is before them, if no string is open at the end of the
first; if one is open, it goes on up to the first quote of the second.  So the tokens of a text
can be written apart. -/
theorem tokens_of_joined_texts (first gap other : String) (hgap : IsGapText gap.toList) :
    (QuotesPaired first.toList →
      tokenize (first ++ gap ++ other) = tokens first ++ (tokenize other).map
        (Token.map (Position.behind (Place.endOf (first ++ gap))))) ∧
    (¬QuotesPaired first.toList →
      ∃ before inside, StringGoesOn first gap other before inside) ∧
    ∀ source, ∃ texts, WrittenApart source texts := by
  refine ⟨fun hpaired => tokenize_append_gap hpaired hgap other, fun hopen => ?_,
    exists_writtenApart⟩
  obtain ⟨before, inside, rfl, hbefore, hinside⟩ := exists_last_quote hopen
  exact ⟨before, inside, stringGoesOn_of_open hbefore hinside hgap other⟩

/-- A line break comes between the tokens behind a closed string, and is a part of an open one. -/
theorem brokenLines_joined :
    IsGapText "\r\n".toList ∧
    QuotesPaired "\"ä\" +".toList ∧
    tokenize ("\"ä\" +" ++ "\r\n" ++ "ö \"b") = tokens "\"ä\" +" ++
      (tokenize "ö \"b").map
        (Token.map (Position.behind (Place.endOf ("\"ä\" +" ++ "\r\n")))) ∧
    tokenize ("\"ä\" +" ++ "\r\n" ++ "ö \"b") =
      [⟨.string, "ä", ⟨1, 1, 0, 4⟩⟩, ⟨.plus, "+", ⟨1, 5, 5, 6⟩⟩,
        ⟨.identifier, "ö", ⟨2, 1, 8, 10⟩⟩, ⟨.string, "b", ⟨2, 3, 11, 13⟩⟩,
        ⟨.eof, "", ⟨2, 5, 13, 14⟩⟩] ∧
    ¬QuotesPaired "x \"ä".toList ∧
    (∃ before inside, StringGoesOn "x \"ä" "\r\n" "b\" c" before inside) ∧
    tokenize ("x \"ä" ++ "\r\n" ++ "b\" c") =
      [⟨.identifier, "x", ⟨1, 1, 0, 1⟩⟩, ⟨.string, "ä\r\nb", ⟨1, 3, 2, 9⟩⟩,
        ⟨.identifier, "c", ⟨2, 4, 10, 11⟩⟩, ⟨.eof, "", ⟨2, 5, 11, 12⟩⟩] ∧
    ∃ texts, WrittenApart "x \"ä" texts := by
  have hgap : IsGapText "\r\n".toList := ⟨by decide, List.all_eq_true.mp (by decide)⟩
  have hpaired : QuotesPaired "\"ä\" +".toList := by decide
  have hopen : ¬QuotesPaired "x \"ä".toList := by decide
  obtain ⟨heven, -, -⟩ := tokens_of_joined_texts "\"ä\" +" "\r\n" "ö \"b" hgap
  obtain ⟨-, hodd, hapart⟩ := tokens_of_joined_texts "x \"ä" "\r\n" "b\" c" hgap
  exact ⟨hgap, hpaired, heven hpaired, by decide +kernel, hopen, hodd hopen, by decide +kernel,
    hapart _⟩

end MonkeyLang
