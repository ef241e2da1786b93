import MonkeyLang.Proofs.Token.Bare
import MonkeyLang.Tree.Basic

/-!
# Characters that spell tokens

Characters spell tokens if the tokens of a text that begins with the characters
begin with those tokens, whatever follows, unless it goes on with a word or a
number.  The rules below put a token, or a gap, in front of others.
-/

namespace MonkeyLang

/-- The characters `cs` are the tokens `ts`, whatever follows them that breaks
words and numbers. -/
def Spells (cs : List Char) (ts : List (Token Unit)) : Prop :=
  ∀ rest, Breaks rest → bareTokens (cs ++ rest) = ts ++ bareTokens rest

theorem Spells.bareTokens_eq {cs : List Char} {ts : List (Token Unit)} (h : Spells cs ts) :
    bareTokens cs = ts := by
  have heq := h [] breaks_nil
  rwa [List.append_nil, bareTokens_nil, List.append_nil] at heq

theorem Breaks.append {cs ds : List Char} (hc : Breaks cs) (hd : Breaks ds) :
    Breaks (cs ++ ds) := by
  cases cs with
  | nil => exact hd
  | cons c cs => exact hc

theorem spells_nil : Spells [] [] := by
  intro rest _
  rfl

theorem Spells.append {cs ds : List Char} {ts us : List (Token Unit)} (h : Spells cs ts)
    (h' : Spells ds us) (hds : Breaks ds) : Spells (cs ++ ds) (ts ++ us) := by
  intro rest hrest
  rw [List.append_assoc, h _ (hds.append hrest), h' rest hrest, List.append_assoc]

theorem Spells.gap_cons {cs : List Char} {ts : List (Token Unit)} (h : Spells cs ts) :
    Spells (' ' :: cs) ts := by
  intro rest hrest
  rw [List.cons_append, bareTokens_gap (by decide), h rest hrest]

theorem Spells.word_append {w cs : List Char} {ts : List (Token Unit)} (h : Spells cs ts)
    (hne : w ≠ []) (hw : ∀ c ∈ w, isLetter c = true) (hcs : Breaks cs) :
    Spells (w ++ cs) (⟨Kind.ofWord (String.ofList w), String.ofList w, ()⟩ :: ts) := by
  intro rest hrest
  rw [List.append_assoc, bareTokens_word hne hw (hcs.append hrest), h rest hrest,
    List.cons_append]

/-- A reserved word. -/
theorem Spells.keyword_append {w : String} {k : Kind} {cs : List Char}
    {ts : List (Token Unit)} (h : Spells cs ts) (hk : Kind.ofWord w = k)
    (hne : w.toList.isEmpty = false) (hw : w.toList.all isLetter = true) (hcs : Breaks cs) :
    Spells (w.toList ++ cs) (⟨k, w, ()⟩ :: ts) := by
  have hnil : w.toList ≠ [] := by
    intro heq
    rw [heq] at hne
    cases hne
  have hspell := h.word_append hnil (List.all_eq_true.mp hw) hcs
  rwa [String.ofList_toList, hk] at hspell

theorem Spells.digits_append {w cs : List Char} {ts : List (Token Unit)} (h : Spells cs ts)
    (hne : w ≠ []) (hw : ∀ c ∈ w, c.isDigit = true) (hcs : Breaks cs) :
    Spells (w ++ cs) (⟨.integer, String.ofList w, ()⟩ :: ts) := by
  intro rest hrest
  rw [List.append_assoc, bareTokens_digits hne hw (hcs.append hrest), h rest hrest,
    List.cons_append]

theorem spells_string {w : List Char} (hw : '"' ∉ w) :
    Spells ('"' :: (w ++ ['"'])) [⟨.string, String.ofList w, ()⟩] := by
  intro rest _
  have heq := bareTokens_string hw rest
  simpa using heq

/-! ## Signs -/

/-- The token of a sign that is one character long. -/
def signToken (k : Kind) (c : Char) : Token Unit :=
  ⟨k, String.ofList [c], ()⟩

/-- A sign is neither a gap, a quote, a letter nor a digit. -/
theorem munch_of_ofSign? {c : Char} {k : Kind} (h : Kind.ofSign? c = some k) (cs : List Char) :
    isGap c = false ∧ isLetter c = false ∧ c.isDigit = false ∧
      Lexeme.munch c cs = Lexeme.munchSign c cs := by
  have hclass : isGap c = false ∧ isLetter c = false ∧ c.isDigit = false ∧ c ≠ '"' := by
    rw [Kind.ofSign?.eq_def] at h
    split at h
    all_goals first
      | exact ⟨by decide, by rw [isLetter_ascii (by decide)]; decide, by decide, by decide⟩
      | cases h
  obtain ⟨hgap, hletter, hdigit, hquote⟩ := hclass
  refine ⟨hgap, hletter, hdigit, ?_⟩
  rw [Lexeme.munch, if_neg hquote, hletter, hdigit]
  rfl

theorem breaks_of_ofSign? {c : Char} {k : Kind} (h : Kind.ofSign? c = some k) (cs : List Char) :
    Breaks (c :: cs) := by
  obtain ⟨-, hletter, hdigit, -⟩ := munch_of_ofSign? h cs
  exact breaks_cons hletter hdigit cs

theorem breaks_gap (cs : List Char) : Breaks (' ' :: cs) :=
  breaks_cons (by rw [isLetter_ascii (by decide)]; decide) (by decide) cs

/-- A sign is the whole token if no equals sign can go on with it, or none
follows. -/
theorem Spells.sign_cons {c : Char} {k : Kind} {cs : List Char} {ts : List (Token Unit)}
    (h : Spells cs ts) (hk : Kind.ofSign? c = some k)
    (hnext : Kind.ofSignEqual? c = none ∨ ∃ d ds, cs = d :: ds ∧ d ≠ '=') :
    Spells (c :: cs) (signToken k c :: ts) := by
  intro rest hrest
  obtain ⟨hgap, -, -, hmunch⟩ := munch_of_ofSign? hk (cs ++ rest)
  have hsign : Lexeme.munchSign c (cs ++ rest) = (Lexeme.plain k [c], cs ++ rest) := by
    rw [Lexeme.munchSign.eq_def]
    split
    · next k' r hk' hr =>
      rcases hnext with hnone | ⟨d, ds, rfl, hd⟩
      · rw [hnone] at hk'
        cases hk'
      · exact absurd (List.cons.inj hr).1 hd
    · rw [hk]
      rfl
  rw [List.cons_append, bareTokens_munch hgap, hmunch, hsign, List.cons_append, ← h rest hrest]
  rfl

theorem Spells.signEqual_cons {c : Char} {k k' : Kind} {cs : List Char} {ts : List (Token Unit)}
    (h : Spells cs ts) (hk : Kind.ofSign? c = some k) (hk' : Kind.ofSignEqual? c = some k') :
    Spells (c :: '=' :: cs) (⟨k', String.ofList [c, '='], ()⟩ :: ts) := by
  intro rest hrest
  obtain ⟨hgap, -, -, hmunch⟩ := munch_of_ofSign? hk ('=' :: (cs ++ rest))
  have hsign : Lexeme.munchSign c ('=' :: (cs ++ rest)) =
      (Lexeme.plain k' [c, '='], cs ++ rest) := by
    rw [Lexeme.munchSign.eq_def, hk']
    rfl
  rw [List.cons_append, List.cons_append, bareTokens_munch hgap, hmunch, hsign, List.cons_append,
    ← h rest hrest]
  rfl

/-- A sign behind characters that spell tokens. -/
theorem Spells.sign_end {cs : List Char} {ts : List (Token Unit)} (h : Spells cs ts) {c : Char}
    {k : Kind} (hk : Kind.ofSign? c = some k) (hk' : Kind.ofSignEqual? c = none) :
    Spells (cs ++ [c]) (ts ++ [signToken k c]) :=
  h.append (spells_nil.sign_cons hk (.inl hk')) (breaks_of_ofSign? hk [])

end MonkeyLang
