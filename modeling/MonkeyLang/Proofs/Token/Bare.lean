import MonkeyLang.Token.Stream

/-!
# Tokens without places

The kinds and literals of the tokens of a text are found without regard to
places.  They come from the front of the text one by one, and each is settled
by its own characters and the one behind it.
-/

namespace MonkeyLang

/-- The token that a lexeme is, without a place. -/
def Lexeme.bare (l : Lexeme) : Token Unit :=
  ⟨l.kind, l.literal, ()⟩

/-- The tokens of some characters, without places. -/
def bareTokens : List Char → List (Token Unit)
  | [] => []
  | c :: cs =>
    if isGap c then bareTokens cs
    else (Lexeme.munch c cs).1.bare :: bareTokens (Lexeme.munch c cs).2
termination_by cs => cs.length
decreasing_by
  · simp
  · exact Lexeme.length_munch_lt c cs

/-! ## Leaving out places -/

/-- The kind of a word is that of identifiers or of a reserved word. -/
theorem Kind.ofWord_mem (word : String) :
    Kind.ofWord word ∈ Kind.identifier :: Kind.keywords.map (·.2) := by
  rw [Kind.ofWord]
  cases hk : Kind.keywords.lookup word with
  | none => exact List.mem_cons_self
  | some k =>
      obtain ⟨l₁, l₂, hl, -⟩ := List.lookup_eq_some_iff.mp hk
      have hmem : (word, k) ∈ Kind.keywords := by
        rw [hl]
        exact List.mem_append_right _ List.mem_cons_self
      exact List.mem_cons_of_mem _ (List.mem_map_of_mem hmem)

theorem Kind.ofWord_ne {k : Kind} (hk : k ∉ Kind.identifier :: Kind.keywords.map (·.2))
    (word : String) : Kind.ofWord word ≠ k := by
  rintro rfl
  exact hk (Kind.ofWord_mem word)

theorem Kind.ofSign?_ne_eof (c : Char) : (Kind.ofSign? c).getD .illegal ≠ .eof := by
  rw [Kind.ofSign?.eq_def]
  split <;> decide

theorem Kind.ofSignEqual?_ne_eof {c : Char} {k : Kind} (h : Kind.ofSignEqual? c = some k) :
    k ≠ .eof := by
  rw [Kind.ofSignEqual?.eq_def] at h
  split at h <;> cases h <;> decide

/-- No token of a text is the end token. -/
theorem Lexeme.munch_ne_eof (c : Char) (cs : List Char) : (munch c cs).1.kind ≠ .eof := by
  rw [munch]
  split
  · rw [munchString]
    split <;> rintro ⟨⟩
  · split
    · exact Kind.ofWord_ne (by decide) _
    · split
      · rintro ⟨⟩
      · rw [munchSign.eq_def]
        split
        · next k _ hk => exact Kind.ofSignEqual?_ne_eof hk
        · exact Kind.ofSign?_ne_eof c

namespace Cursor

theorem tokens_nil (p : Place) : tokens ⟨p, []⟩ = [] := by
  rw [tokens]
  rfl

theorem tokens_gap {c : Char} (hc : isGap c = true) (p : Place) (cs : List Char) :
    tokens ⟨p, c :: cs⟩ = tokens ⟨p.step c, cs⟩ := by
  have hnext : next ⟨p, c :: cs⟩ = next ⟨p.step c, cs⟩ := if_pos hc
  rw [tokens, hnext, ← tokens]

theorem tokens_munch {c : Char} (hc : isGap c = false) (p : Place) (cs : List Char) :
    tokens ⟨p, c :: cs⟩ = (Lexeme.munch c cs).1.at p ::
      tokens ⟨p.after (Lexeme.munch c cs).1.text, (Lexeme.munch c cs).2⟩ := by
  have hnext : next ⟨p, c :: cs⟩ = ((Lexeme.munch c cs).1.at p,
      ⟨p.after (Lexeme.munch c cs).1.text, (Lexeme.munch c cs).2⟩) := by
    rw [next, nextFrom, hc]
    rfl
  have hkind : ((Lexeme.munch c cs).1.at p).kind ≠ .eof := Lexeme.munch_ne_eof c cs
  rw [tokens, hnext, if_neg hkind]

/-- The tokens of a text, without their places. -/
theorem tokens_bare (p : Place) (cs : List Char) :
    (tokens ⟨p, cs⟩).map (Token.map fun _ => ()) = bareTokens cs := by
  induction hn : cs.length using Nat.strongRecOn generalizing p cs with
  | ind n ih =>
      cases cs with
      | nil =>
          rw [tokens_nil, bareTokens]
          rfl
      | cons c cs =>
          cases hgap : isGap c with
          | true =>
              rw [tokens_gap hgap, bareTokens, if_pos hgap]
              exact ih cs.length (by simp [← hn]) _ cs rfl
          | false =>
              have hlen := Lexeme.length_munch_lt c cs
              rw [tokens_munch hgap, bareTokens, hgap, if_neg Bool.false_ne_true, List.map_cons]
              exact congrArg _ (ih _ (by simp [← hn]; omega) _ _ rfl)

end Cursor

theorem tokens_bare (source : String) :
    (tokens source).map (Token.map fun _ => ()) = bareTokens source.toList :=
  Cursor.tokens_bare Place.origin source.toList

/-! ## One token at a time -/

theorem bareTokens_nil : bareTokens [] = [] := by
  rw [bareTokens]

theorem bareTokens_gap {c : Char} (hc : isGap c = true) (cs : List Char) :
    bareTokens (c :: cs) = bareTokens cs := by
  rw [bareTokens, if_pos hc]

theorem bareTokens_munch {c : Char} (hc : isGap c = false) (cs : List Char) :
    bareTokens (c :: cs) =
      (Lexeme.munch c cs).1.bare :: bareTokens (Lexeme.munch c cs).2 := by
  rw [bareTokens, hc]
  rfl

/-- Characters that go on with no word and no number. -/
def Breaks (cs : List Char) : Prop :=
  ∀ c ∈ cs.head?, isLetter c = false ∧ c.isDigit = false

theorem breaks_nil : Breaks [] := by
  intro c hc
  simp at hc

theorem breaks_cons {c : Char} (hl : isLetter c = false) (hd : c.isDigit = false)
    (cs : List Char) : Breaks (c :: cs) := by
  intro d hd'
  obtain rfl : c = d := by simpa using hd'
  exact ⟨hl, hd⟩

theorem isLetter_ascii {c : Char} (h : c.toNat < 0x80) :
    isLetter c = (c.isAlpha || c == '_') := by
  rw [isLetter, isAlphabetic_of_lt h]

theorem isLetter_of_isGap {c : Char} (hc : isGap c = true) : isLetter c = false := by
  simp only [isGap, Bool.or_eq_true, beq_iff_eq] at hc
  rcases hc with ((rfl | rfl) | rfl) | rfl <;> rw [isLetter_ascii (by decide)] <;> decide

theorem isDigit_of_isGap {c : Char} (hc : isGap c = true) : c.isDigit = false := by
  simp only [isGap, Bool.or_eq_true, beq_iff_eq] at hc
  rcases hc with ((rfl | rfl) | rfl) | rfl <;> decide

theorem isLetter_of_isDigit {c : Char} (hc : c.isDigit = true) : isLetter c = false := by
  have hrange : 48 ≤ c.toNat ∧ c.toNat ≤ 57 := by
    simpa [Char.isDigit, UInt32.le_iff_toNat_le] using hc
  have hline : c ≠ '_' := by
    rintro rfl
    exact absurd hc (by decide)
  have halpha : c.isAlpha = false := by
    rw [Bool.eq_false_iff]
    intro h
    change (decide ('A'.val ≤ c.val ∧ c.val ≤ 'Z'.val) ||
      decide ('a'.val ≤ c.val) && decide (c.val ≤ 'z'.val)) = true at h
    simp only [UInt32.le_iff_toNat_le, Bool.or_eq_true, Bool.and_eq_true, decide_eq_true_eq] at h
    have hval : c.val.toNat = c.toNat := rfl
    have hA : 'A'.val.toNat = 65 := rfl
    have ha : 'a'.val.toNat = 97 := rfl
    omega
  rw [isLetter_ascii (by omega), halpha]
  simpa using hline

theorem isGap_of_isLetter {c : Char} (hc : isLetter c = true) : isGap c = false := by
  cases hg : isGap c with
  | false => rfl
  | true => exact absurd hc (by rw [isLetter_of_isGap hg]; decide)

theorem isGap_of_isDigit {c : Char} (hc : c.isDigit = true) : isGap c = false := by
  cases hg : isGap c with
  | false => rfl
  | true => exact absurd hc (by rw [isDigit_of_isGap hg]; decide)

/-- A character outside a class ends a run of characters of the class. -/
theorem takeWhile_run {p : Char → Bool} {w r : List Char} (hw : ∀ c ∈ w, p c = true)
    (hr : ∀ c ∈ r.head?, p c = false) :
    (w ++ r).takeWhile p = w ∧ (w ++ r).dropWhile p = r := by
  rw [List.takeWhile_append_of_pos hw, List.dropWhile_append_of_pos hw]
  cases r with
  | nil => simp
  | cons c r => simp [hr c rfl]

/-! ## What is taken -/

namespace Lexeme

theorem munchString_closed {w : List Char} (hw : '"' ∉ w) (rest : List Char) :
    munchString (w ++ '"' :: rest) = (⟨.string, String.ofList w, '"' :: (w ++ ['"'])⟩, rest) := by
  obtain ⟨htake, hdrop⟩ := takeWhile_run (p := (· ≠ '"')) (r := '"' :: rest)
    (fun d hd => decide_eq_true fun h => hw (h ▸ hd)) (fun d hd => by simpa using Eq.symm hd)
  rw [munchString, htake, hdrop]
  rfl

theorem munch_string (rest : List Char) : munch '"' rest = munchString rest :=
  if_pos rfl

theorem munch_word {c : Char} (hc : isLetter c) (rest : List Char) :
    munch c rest =
      (plain (Kind.ofWord (String.ofList (c :: rest.takeWhile isLetter)))
        (c :: rest.takeWhile isLetter), rest.dropWhile isLetter) := by
  have hquote : c ≠ '"' := by
    rintro rfl
    rw [isLetter_ascii (by decide)] at hc
    exact absurd hc (by decide)
  rw [munch, if_neg hquote, if_pos hc]

theorem munch_digits {c : Char} (hc : c.isDigit) (rest : List Char) :
    munch c rest =
      (plain .integer (c :: rest.takeWhile Char.isDigit), rest.dropWhile Char.isDigit) := by
  have hquote : c ≠ '"' := by
    rintro rfl
    exact absurd hc (by decide)
  rw [munch, if_neg hquote, isLetter_of_isDigit hc, if_neg Bool.false_ne_true, if_pos hc]

theorem munch_sign {c : Char} (hquote : c ≠ '"') (hletter : ¬ isLetter c) (hdigit : ¬ c.isDigit)
    (rest : List Char) : munch c rest = munchSign c rest := by
  rw [munch, if_neg hquote, if_neg hletter, if_neg hdigit]

end Lexeme

theorem bareTokens_word {w rest : List Char} (hne : w ≠ []) (hw : ∀ c ∈ w, isLetter c = true)
    (hrest : Breaks rest) :
    bareTokens (w ++ rest) =
      ⟨Kind.ofWord (String.ofList w), String.ofList w, ()⟩ :: bareTokens rest := by
  obtain ⟨c, w, rfl⟩ := List.exists_cons_of_ne_nil hne
  have hc : isLetter c = true := hw c List.mem_cons_self
  obtain ⟨htake, hdrop⟩ := takeWhile_run (p := isLetter) (r := rest)
    (fun d hd => hw d (List.mem_cons_of_mem _ hd)) (fun d hd => (hrest d hd).1)
  rw [List.cons_append, bareTokens_munch (isGap_of_isLetter hc), Lexeme.munch_word hc, htake, hdrop]
  rfl

theorem bareTokens_digits {w rest : List Char} (hne : w ≠ [])
    (hw : ∀ c ∈ w, c.isDigit = true) (hrest : Breaks rest) :
    bareTokens (w ++ rest) = ⟨.integer, String.ofList w, ()⟩ :: bareTokens rest := by
  obtain ⟨c, w, rfl⟩ := List.exists_cons_of_ne_nil hne
  have hc : c.isDigit = true := hw c List.mem_cons_self
  obtain ⟨htake, hdrop⟩ := takeWhile_run (p := Char.isDigit) (r := rest)
    (fun d hd => hw d (List.mem_cons_of_mem _ hd)) (fun d hd => (hrest d hd).2)
  rw [List.cons_append, bareTokens_munch (isGap_of_isDigit hc), Lexeme.munch_digits hc, htake, hdrop]
  rfl

theorem bareTokens_string {w : List Char} (hw : '"' ∉ w) (rest : List Char) :
    bareTokens ('"' :: (w ++ '"' :: rest)) =
      ⟨.string, String.ofList w, ()⟩ :: bareTokens rest := by
  rw [bareTokens_munch (by decide), Lexeme.munch_string, Lexeme.munchString_closed hw]
  rfl

end MonkeyLang
