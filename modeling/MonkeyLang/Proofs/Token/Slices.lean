import MonkeyLang.Proofs.Token.Bare

/-!
# Scanning by slices

The tokens of a text can be found without taking the text apart into characters.
A scanner keeps the text whole, and the number of bytes before the character at
hand and before the one after it; whatever it looks at or takes, it cuts out of
the text between two bytes.  There is no such slice if a byte is not the first of
a character, or is beyond the end.

`Scanner.tokens?_ofText` says that all slices that a scanner asks for are there,
that it comes to the end of every text, and that it finds the tokens of the text.
-/

namespace MonkeyLang

/-- The text from one byte of a text up to another, if both are boundaries of
characters. -/
def slice? (s : String) (i j : Nat) : Option String :=
  if h : String.Pos.Raw.IsValid s ⟨i⟩ ∧ String.Pos.Raw.IsValid s ⟨j⟩ ∧ i ≤ j then
    some (s.extract (s.pos ⟨i⟩ h.1) (s.pos ⟨j⟩ h.2.1))
  else none

/-- The character that begins at a byte of a text, unless this is the end of the
text. -/
def charAt? (s : String) (i : Nat) : Option (Option Char) :=
  (slice? s i s.utf8ByteSize).map (·.toList.head?)

/-- A text, the character at hand, the number of bytes before it and before the next
one, and its line and column. -/
structure Scanner where
  source : String
  position : Nat
  ahead : Nat
  char? : Option Char
  line : Nat
  column : Nat

namespace Scanner

/-- Goes on to the next character. -/
def advance (k : Scanner) : Option Scanner := do
  let c ← charAt? k.source k.ahead
  let ahead := k.ahead + (c.map Char.utf8Size).getD 0
  if k.char? = some '\n' then some ⟨k.source, k.ahead, ahead, c, k.line + 1, 1⟩
  else some ⟨k.source, k.ahead, ahead, c, k.line, k.column + 1⟩

/-- The scanner at the beginning of a text. -/
def ofText (source : String) : Option Scanner :=
  advance ⟨source, 0, 0, none, 1, 0⟩

/-- Goes on past all characters of a class, if there are fewer than `n`. -/
def passWithin (p : Char → Bool) : Nat → Scanner → Option Scanner
  | 0, _ => none
  | n + 1, k =>
    if k.char?.any p then do
      let next ← k.advance
      passWithin p n next
    else some k

/-- Goes on past all characters of a class.  There are no more of them than the text
has characters. -/
def pass (p : Char → Bool) (k : Scanner) : Option Scanner :=
  k.passWithin p (k.source.length + 1)

/-- Takes all characters of a class. -/
def takeRun (p : Char → Bool) (k : Scanner) : Option (String × Scanner) := do
  let next ← k.pass p
  let text ← slice? k.source k.position next.position
  some (text, next)

/-- Takes a string, and gives what is inside of the quotes. -/
def takeString (k : Scanner) : Option (String × Scanner) := do
  let opened ← k.advance
  let inside ← opened.pass (· ≠ '"')
  let text ← slice? k.source (k.position + 1) inside.position
  match inside.char? with
  | some _ => do
    let next ← inside.advance
    some (text, next)
  | none => some (text, inside)

/-- The kind of the sign that begins with `c`.  If the sign goes on, its first
character is passed over. -/
def takeSign (c : Char) (k : Scanner) : Option (Kind × Scanner) :=
  match Kind.ofSignEqual? c with
  | some kind => do
    let peeked ← charAt? k.source k.ahead
    if peeked = some '=' then do
      let next ← k.advance
      some (kind, next)
    else some ((Kind.ofSign? c).getD .illegal, k)
  | none => some ((Kind.ofSign? c).getD .illegal, k)

/-- The token between two scanners. -/
def token (k next : Scanner) (kind : Kind) (literal : String) : Token Position :=
  ⟨kind, literal, ⟨k.line, k.column, k.position, next.position⟩⟩

/-- The token that begins with the character at hand. -/
def take (c : Char) (k : Scanner) : Option (Token Position × Scanner) :=
  if c = '"' then do
    let (text, next) ← k.takeString
    some (k.token next .string text, next)
  else if isLetter c then do
    let (word, next) ← k.takeRun isLetter
    some (k.token next (Kind.ofWord word) word, next)
  else if c.isDigit then do
    let (digits, next) ← k.takeRun Char.isDigit
    some (k.token next .integer digits, next)
  else do
    let (kind, last) ← k.takeSign c
    let next ← last.advance
    let text ← slice? k.source k.position next.position
    some (k.token next kind text, next)

/-- The next token, and the scanner behind it. -/
def next (k : Scanner) : Option (Token Position × Scanner) := do
  let k ← k.pass isGap
  match k.char? with
  | some c => k.take c
  | none =>
    let size := k.source.utf8ByteSize
    some (⟨.eof, "", ⟨k.line, k.column, size, size + 1⟩⟩, k)

/-- The answers of the first `n` calls of `next`. -/
def stream : Nat → Scanner → Option (List (Token Position))
  | 0, _ => some []
  | n + 1, k => do
    let (t, k) ← k.next
    let ts ← stream n k
    some (t :: ts)

/-- The tokens up to the end of the text, and its end, if there are fewer than `n`
before the end. -/
def tokensWithin : Nat → Scanner → Option (List (Token Position))
  | 0, _ => none
  | n + 1, k => do
    let (t, k) ← k.next
    if t.kind = .eof then some [t]
    else do
      let ts ← tokensWithin n k
      some (t :: ts)

/-- The tokens up to the end of the text, and its end.  There are no more tokens than
the text has characters. -/
def tokens? (k : Scanner) : Option (List (Token Position)) :=
  k.tokensWithin (k.source.length + 1)

end Scanner

/-! ## Slices that are there -/

theorem slice?_append (before text after : String) :
    slice? (before ++ text ++ after) before.utf8ByteSize (before ++ text).utf8ByteSize =
      some text := by
  have hstart : String.Pos.Raw.IsValid (before ++ text ++ after) ⟨before.utf8ByteSize⟩ :=
    String.Pos.Raw.isValid_iff_exists_append.mpr ⟨before, text ++ after, String.append_assoc, rfl⟩
  have hstop : String.Pos.Raw.IsValid (before ++ text ++ after) ⟨(before ++ text).utf8ByteSize⟩ :=
    String.Pos.Raw.isValid_iff_exists_append.mpr ⟨before ++ text, after, rfl, rfl⟩
  have hle : before.utf8ByteSize ≤ (before ++ text).utf8ByteSize := by
    rw [String.utf8ByteSize_append]
    exact Nat.le_add_right _ _
  rw [slice?, dif_pos ⟨hstart, hstop, hle⟩]
  congr 1
  apply String.toByteArray_inj.mp
  change ByteArray.extract _ before.utf8ByteSize (before ++ text).utf8ByteSize = _
  rw [String.append_assoc, String.toByteArray_append, String.toByteArray_append,
    String.utf8ByteSize_append, ← Nat.add_zero before.utf8ByteSize, Nat.add_assoc, Nat.zero_add]
  exact (ByteArray.extract_append_size_add).trans (ByteArray.extract_append_eq_left rfl)

/-- The number of bytes of some characters. -/
def bytes (cs : List Char) : Nat :=
  (String.ofList cs).utf8ByteSize

theorem bytes_append (cs ds : List Char) : bytes (cs ++ ds) = bytes cs + bytes ds := by
  rw [bytes, String.ofList_append, String.utf8ByteSize_append, bytes, bytes]

theorem bytes_singleton (c : Char) : bytes [c] = c.utf8Size := by
  rw [bytes, ← String.singleton_eq_ofList, String.utf8ByteSize_singleton]

theorem bytes_cons (c : Char) (cs : List Char) : bytes (c :: cs) = c.utf8Size + bytes cs := by
  rw [← List.singleton_append, bytes_append, bytes_singleton]

theorem bytes_toList (s : String) : bytes s.toList = s.utf8ByteSize := by
  rw [bytes, String.ofList_toList]

theorem slice?_ofList (before text after : List Char) :
    slice? (String.ofList (before ++ text ++ after)) (bytes before) (bytes (before ++ text)) =
      some (String.ofList text) := by
  rw [bytes, bytes, String.ofList_append, String.ofList_append]
  exact slice?_append _ _ _

theorem charAt?_ofList (before after : List Char) :
    charAt? (String.ofList (before ++ after)) (bytes before) = some after.head? := by
  have hslice := slice?_ofList before after []
  rw [List.append_nil] at hslice
  rw [charAt?]
  change Option.map _ (slice? _ _ (bytes (before ++ after))) = _
  rw [hslice, Option.map_some, String.toList_ofList]

/-! ## What is taken -/

namespace Lexeme

theorem munchSign_pair {c : Char} {kind : Kind} (hkind : Kind.ofSignEqual? c = some kind)
    (rest : List Char) : munchSign c ('=' :: rest) = (plain kind [c, '='], rest) := by
  rw [munchSign.eq_def, hkind]
  rfl

theorem munchSign_alone {c : Char} {rest : List Char}
    (halone : Kind.ofSignEqual? c = none ∨ rest.head? ≠ some '=') :
    munchSign c rest = (plain ((Kind.ofSign? c).getD .illegal) [c], rest) := by
  rw [munchSign.eq_def]
  split
  · next kind rest hkind =>
    rcases halone with hnone | hne
    · rw [hnone] at hkind
      cases hkind
    · exact absurd rfl hne
  · rfl

theorem munchSign_literal (c : Char) (rest : List Char) :
    (munchSign c rest).1.literal = String.ofList (munchSign c rest).1.text := by
  rw [munchSign.eq_def]
  split <;> rfl

theorem munchString_kind (rest : List Char) : (munchString rest).1.kind = .string := by
  rw [munchString]
  split <;> rfl

end Lexeme

namespace Cursor

/-- The next token comes after the gap at hand. -/
theorem next_dropWhile (p : Place) (cs : List Char) :
    Cursor.next ⟨p, cs⟩ = Cursor.next ⟨p.after (cs.takeWhile isGap), cs.dropWhile isGap⟩ := by
  induction cs generalizing p with
  | nil => rfl
  | cons c cs ih =>
      by_cases hc : isGap c
      · rw [List.takeWhile_cons_of_pos hc, List.dropWhile_cons_of_pos hc, Place.after_cons, ← ih,
          Cursor.next, Cursor.nextFrom, if_pos hc]
        rfl
      · rw [List.takeWhile_cons_of_neg hc, List.dropWhile_cons_of_neg hc]
        rfl

/-- The cursor at the end of the text that a cursor goes through. -/
def atEnd (k : Cursor) : Cursor :=
  ⟨k.place.after k.rest, []⟩

/-- Either the text is at its end, or a token of it comes next. -/
theorem next_cases (k : Cursor) :
    k.next = (k.atEnd.place.endToken, k.atEnd) ∨
      k.next.1.kind ≠ .eof ∧ k.next.2.atEnd = k.atEnd := by
  obtain ⟨p, cs⟩ := k
  have hend : p.after cs = (p.after (cs.takeWhile isGap)).after (cs.dropWhile isGap) := by
    rw [← Place.after_append, List.takeWhile_append_dropWhile]
  rw [next_dropWhile, atEnd, hend]
  have hhead := List.head?_dropWhile_not isGap cs
  cases hcs : cs.dropWhile isGap with
  | nil => exact .inl rfl
  | cons c cs =>
      rw [hcs] at hhead
      have hgap : isGap c = false := hhead
      rw [next, nextFrom, hgap, if_neg Bool.false_ne_true]
      refine .inr ⟨Lexeme.munch_ne_eof c cs, ?_⟩
      rw [atEnd, ← Lexeme.munch_append c cs, Place.after_append]

end Cursor

namespace Scanner

/-- A scanner is at a place of a text, with `before` in front and `rest` behind. -/
structure At (k : Scanner) (before rest : List Char) (p : Place) : Prop where
  source : k.source = String.ofList (before ++ rest)
  position : k.position = bytes before
  ahead : k.ahead = bytes (before ++ rest.take 1)
  char : k.char? = rest.head?
  place : p = ⟨k.position, k.line, k.column⟩

variable {k : Scanner} {before rest text : List Char} {p : Place}

theorem ofText_at (source : String) :
    ∃ k, ofText source = some k ∧ k.At [] source.toList Place.origin := by
  have hchar := charAt?_ofList [] source.toList
  rw [List.nil_append, String.ofList_toList] at hchar
  refine ⟨⟨source, 0, 0 + (source.toList.head?.map Char.utf8Size).getD 0,
    source.toList.head?, 1, 1⟩, ?_, ?_⟩
  · rw [ofText, advance]
    change Option.bind (charAt? source (bytes [])) _ = _
    rw [hchar]
    rfl
  · refine ⟨?_, rfl, ?_, rfl, rfl⟩
    · rw [List.nil_append, String.ofList_toList]
    · cases hcs : source.toList with
      | nil => rfl
      | cons c cs =>
          change 0 + c.utf8Size = bytes [c]
          rw [bytes_singleton, Nat.zero_add]

theorem At.advance {c : Char} (hk : k.At before (c :: rest) p) :
    ∃ k', k.advance = some k' ∧ k'.At (before ++ [c]) rest (p.step c) := by
  obtain ⟨hsource, hposition, hahead, hchar, rfl⟩ := hk
  have hwhole : before ++ c :: rest = before ++ [c] ++ rest := by simp
  have hnext : charAt? k.source k.ahead = some rest.head? := by
    rw [hsource, hahead, hwhole]
    exact charAt?_ofList _ _
  have hsize : k.ahead = k.position + c.utf8Size := by
    rw [hahead, hposition, ← bytes_singleton, ← bytes_append]
    rfl
  have hbehind : k.ahead + (rest.head?.map Char.utf8Size).getD 0 =
      bytes (before ++ [c] ++ rest.take 1) := by
    rw [bytes_append _ (rest.take 1), hahead]
    cases rest with
    | nil => rfl
    | cons d rest => exact congrArg _ (bytes_singleton d).symm
  rw [Scanner.advance, hnext, Option.bind_eq_bind, Option.bind_some, hchar, List.head?_cons]
  by_cases hline : c = '\n'
  · rw [if_pos (congrArg some hline)]
    refine ⟨_, rfl, hsource.trans (congrArg _ hwhole), hahead, hbehind, rfl, ?_⟩
    rw [Place.step, if_pos hline, hsize]
  · rw [if_neg fun hsome => hline (Option.some.inj hsome)]
    refine ⟨_, rfl, hsource.trans (congrArg _ hwhole), hahead, hbehind, rfl, ?_⟩
    rw [Place.step, if_neg hline, hsize]

theorem At.passWithin (hk : k.At before rest p) (q : Char → Bool) {n : Nat}
    (hn : rest.length < n) :
    ∃ k', k.passWithin q n = some k' ∧
      k'.At (before ++ rest.takeWhile q) (rest.dropWhile q) (p.after (rest.takeWhile q)) := by
  induction rest generalizing k before p n with
  | nil =>
      obtain ⟨n, rfl⟩ := Nat.exists_eq_add_one_of_ne_zero (Nat.ne_of_gt hn)
      refine ⟨k, ?_, by simpa using hk⟩
      rw [Scanner.passWithin, hk.char]
      rfl
  | cons c rest ih =>
      obtain ⟨n, rfl⟩ := Nat.exists_eq_add_one_of_ne_zero (Nat.ne_zero_of_lt hn)
      rw [Scanner.passWithin, hk.char, List.head?_cons, Option.any_some]
      by_cases hc : q c
      · obtain ⟨k', hadvance, hk'⟩ := hk.advance
        obtain ⟨k'', hpass, hk''⟩ := ih hk' (Nat.lt_of_succ_lt_succ hn)
        refine ⟨k'', ?_, ?_⟩
        · rw [if_pos hc, hadvance]
          exact hpass
        · rw [List.takeWhile_cons_of_pos hc, List.dropWhile_cons_of_pos hc, List.append_cons]
          exact hk''
      · refine ⟨k, if_neg hc, ?_⟩
        rw [List.takeWhile_cons_of_neg hc, List.dropWhile_cons_of_neg hc, List.append_nil]
        exact hk

theorem At.length_lt (hk : k.At before rest p) : rest.length < k.source.length + 1 := by
  rw [hk.source, String.length_ofList, List.length_append]
  omega

theorem At.pass (hk : k.At before rest p) (q : Char → Bool) :
    ∃ k', k.pass q = some k' ∧
      k'.At (before ++ rest.takeWhile q) (rest.dropWhile q) (p.after (rest.takeWhile q)) :=
  hk.passWithin q hk.length_lt

/-- The text between two scanners is there. -/
theorem At.slice {k' : Scanner} {p' : Place} (hk : k.At before (text ++ rest) p)
    (hk' : k'.At (before ++ text) rest p') :
    slice? k.source k.position k'.position = some (String.ofList text) := by
  rw [hk.source, hk.position, hk'.position, ← List.append_assoc]
  exact slice?_ofList before text rest

/-- The token between two scanners is the lexeme in between, where it was found. -/
theorem At.token {k' : Scanner} {l : Lexeme} (hk : k.At before (l.text ++ rest) p)
    (hk' : k'.At (before ++ l.text) rest (p.after l.text)) :
    k.token k' l.kind l.literal = l.at p := by
  rw [Lexeme.at, hk'.place, hk.place]
  rfl

theorem At.takeRun {c : Char} {q : Char → Bool} (hc : q c) (hk : k.At before (c :: rest) p) :
    ∃ k', k.takeRun q = some (String.ofList (c :: rest.takeWhile q), k') ∧
      k'.At (before ++ c :: rest.takeWhile q) (rest.dropWhile q)
        (p.after (c :: rest.takeWhile q)) := by
  obtain ⟨k', hpass, hk'⟩ := hk.pass q
  rw [List.takeWhile_cons_of_pos hc, List.dropWhile_cons_of_pos hc] at hk'
  have hsplit : c :: rest = (c :: rest.takeWhile q) ++ rest.dropWhile q := by
    rw [List.cons_append, List.takeWhile_append_dropWhile]
  rw [hsplit] at hk
  refine ⟨k', ?_, hk'⟩
  rw [Scanner.takeRun, hpass, Option.bind_eq_bind, Option.bind_some, hk.slice hk']
  rfl

theorem At.takeString (hk : k.At before ('"' :: rest) p) :
    ∃ k', k.takeString = some ((Lexeme.munchString rest).1.literal, k') ∧
      k'.At (before ++ (Lexeme.munchString rest).1.text) (Lexeme.munchString rest).2
        (p.after (Lexeme.munchString rest).1.text) := by
  obtain ⟨opened, hopen, hopened⟩ := hk.advance
  obtain ⟨inside, hpass, hinside⟩ := hopened.pass (· ≠ '"')
  have hsource : k.source = opened.source := by
    rw [hk.source, hopened.source, List.append_cons]
  have hposition : k.position + 1 = opened.position := by
    rw [hk.position, hopened.position, bytes_append, bytes_singleton]
    rfl
  have hslice : slice? k.source (k.position + 1) inside.position =
      some (String.ofList (rest.takeWhile (· ≠ '"'))) := by
    rw [← List.takeWhile_append_dropWhile (p := (· ≠ '"')) (l := rest)] at hopened
    rw [hsource, hposition]
    exact hopened.slice hinside
  simp only [Scanner.takeString, Option.bind_eq_bind, hopen, Option.bind_some, hpass, hslice,
    hinside.char, Lexeme.munchString]
  cases hclose : rest.dropWhile (· ≠ '"') with
  | nil =>
      rw [hclose, List.append_assoc] at hinside
      exact ⟨inside, rfl, hinside⟩
  | cons quote beyond =>
      rw [hclose] at hinside
      obtain ⟨closed, hadvance, hclosed⟩ := hinside.advance
      refine ⟨closed, ?_, ?_⟩
      · rw [List.head?_cons, hadvance]
        rfl
      · rw [List.append_assoc, List.append_assoc] at hclosed
        change closed.At (before ++ '"' :: (rest.takeWhile (· ≠ '"') ++ [quote])) beyond
          (p.after ('"' :: (rest.takeWhile (· ≠ '"') ++ [quote])))
        rw [Place.after_cons, Place.after_append]
        exact hclosed

theorem At.takeSign {c : Char} (hk : k.At before (c :: rest) p) :
    ∃ last next, k.takeSign c = some ((Lexeme.munchSign c rest).1.kind, last) ∧
      last.advance = some next ∧
      next.At (before ++ (Lexeme.munchSign c rest).1.text) (Lexeme.munchSign c rest).2
        (p.after (Lexeme.munchSign c rest).1.text) := by
  obtain ⟨next, hadvance, hnext⟩ := hk.advance
  have hpeeked : charAt? k.source k.ahead = some rest.head? := by
    rw [hk.source, hk.ahead, List.append_cons]
    exact charAt?_ofList _ _
  rw [Scanner.takeSign]
  cases hpair : Kind.ofSignEqual? c with
  | none =>
      rw [Lexeme.munchSign_alone (.inl hpair)]
      exact ⟨k, next, rfl, hadvance, hnext⟩
  | some kind =>
      dsimp only
      rw [hpeeked, Option.bind_eq_bind, Option.bind_some]
      by_cases hequal : rest.head? = some '='
      · obtain ⟨rest', rfl⟩ := List.head?_eq_some_iff.mp hequal
        obtain ⟨last, hadvance', hlast⟩ := hnext.advance
        rw [List.append_assoc] at hlast
        rw [Lexeme.munchSign_pair hpair, if_pos hequal, hadvance]
        exact ⟨next, last, rfl, hadvance', hlast⟩
      · rw [Lexeme.munchSign_alone (.inr hequal), if_neg hequal]
        exact ⟨k, next, rfl, hadvance, hnext⟩

/-- A scanner takes the token at hand. -/
theorem At.take {c : Char} (hk : k.At before (c :: rest) p) :
    ∃ k', k.take c = some ((Lexeme.munch c rest).1.at p, k') ∧
      k'.At (before ++ (Lexeme.munch c rest).1.text) (Lexeme.munch c rest).2
        (p.after (Lexeme.munch c rest).1.text) := by
  have hwhole : k.At before ((Lexeme.munch c rest).1.text ++ (Lexeme.munch c rest).2) p := by
    rw [Lexeme.munch_append]
    exact hk
  rw [Scanner.take]
  by_cases hquote : c = '"'
  · subst hquote
    obtain ⟨k', htake, hk'⟩ := hk.takeString
    rw [Lexeme.munch_string] at hwhole ⊢
    rw [if_pos rfl, htake, ← hwhole.token hk', Lexeme.munchString_kind]
    exact ⟨k', rfl, hk'⟩
  · rw [if_neg hquote]
    by_cases hletter : isLetter c
    · obtain ⟨k', htake, hk'⟩ := hk.takeRun hletter
      rw [Lexeme.munch_word hletter] at hwhole ⊢
      rw [if_pos hletter, htake, ← hwhole.token hk']
      exact ⟨k', rfl, hk'⟩
    · rw [if_neg hletter]
      by_cases hdigit : c.isDigit
      · obtain ⟨k', htake, hk'⟩ := hk.takeRun hdigit
        rw [Lexeme.munch_digits hdigit] at hwhole ⊢
        rw [if_pos hdigit, htake, ← hwhole.token hk']
        exact ⟨k', rfl, hk'⟩
      · obtain ⟨last, k', htake, hadvance, hk'⟩ := hk.takeSign
        rw [Lexeme.munch_sign hquote hletter hdigit] at hwhole ⊢
        rw [if_neg hdigit, ← hwhole.token hk', Lexeme.munchSign_literal]
        simp only [htake, Option.bind_eq_bind, Option.bind_some, hadvance, hwhole.slice hk']
        exact ⟨k', rfl, hk'⟩

/-- A scanner has come as far in a text as a cursor. -/
def Follows (k : Scanner) (cursor : Cursor) : Prop :=
  ∃ before, k.At before cursor.rest cursor.place

variable {cursor : Cursor}

theorem Follows.next (hk : k.Follows cursor) :
    ∃ k', k.next = some (cursor.next.1, k') ∧ k'.Follows cursor.next.2 := by
  obtain ⟨place, rest⟩ := cursor
  obtain ⟨before, hk⟩ := hk
  obtain ⟨passed, hpass, hpassed⟩ := hk.pass isGap
  have hhead := List.head?_dropWhile_not isGap rest
  rw [Scanner.next, hpass, Option.bind_eq_bind, Option.bind_some, hpassed.char,
    Cursor.next_dropWhile]
  cases hrest : rest.dropWhile isGap with
  | nil =>
      rw [hrest] at hpassed
      have hsize : passed.source.utf8ByteSize = passed.position := by
        rw [hpassed.source, hpassed.position, List.append_nil, bytes]
      refine ⟨passed, ?_, _, hpassed⟩
      dsimp only [List.head?_nil]
      rw [hsize, Cursor.next, Cursor.nextFrom, hpassed.place]
      rfl
  | cons c cs =>
      rw [hrest] at hpassed hhead
      have hgap : isGap c = false := hhead
      obtain ⟨k', htake, hk'⟩ := hpassed.take
      rw [Cursor.next, Cursor.nextFrom, hgap, if_neg Bool.false_ne_true]
      exact ⟨k', htake, _, hk'⟩

theorem Follows.stream (hk : k.Follows cursor) (n : Nat) :
    k.stream n = some (cursor.stream n) := by
  induction n generalizing k cursor with
  | zero => rfl
  | succ n ih =>
      obtain ⟨k', hnext, hk'⟩ := hk.next
      simp only [Scanner.stream, hnext, Option.bind_eq_bind, Option.bind_some, ih hk']
      rfl

theorem Follows.tokensWithin (hk : k.Follows cursor) {n : Nat} (hn : cursor.rest.length < n) :
    k.tokensWithin n = some (cursor.tokens ++ [cursor.atEnd.place.endToken]) := by
  induction n generalizing k cursor with
  | zero => cases hn
  | succ n ih =>
      obtain ⟨k', hnext, hk'⟩ := hk.next
      rw [Scanner.tokensWithin, hnext, Option.bind_eq_bind, Option.bind_some, Cursor.tokens]
      dsimp only
      rcases cursor.next_cases with hend | ⟨hkind, hend⟩
      · rw [hend]
        rfl
      · have hlt : cursor.next.2.rest.length < cursor.rest.length :=
          Cursor.length_nextFrom_lt _ _ hkind
        rw [if_neg hkind, if_neg hkind, ih hk' (by omega), hend]
        rfl

theorem Follows.tokens? (hk : k.Follows cursor) :
    k.tokens? = some (cursor.tokens ++ [cursor.atEnd.place.endToken]) := by
  obtain ⟨before, hat⟩ := hk
  exact Follows.tokensWithin ⟨before, hat⟩ hat.length_lt

theorem follows_ofText (source : String) :
    ∃ k, ofText source = some k ∧ k.Follows (Cursor.ofText source) := by
  obtain ⟨k, hk, hat⟩ := ofText_at source
  exact ⟨k, hk, [], hat⟩

/-- A scanner comes to the end of every text, and finds its tokens. -/
theorem tokens?_ofText (source : String) :
    (ofText source).bind Scanner.tokens? = some (tokenize source) := by
  obtain ⟨k, hk, hfollows⟩ := follows_ofText source
  rw [hk, Option.bind_some, hfollows.tokens?]
  rfl

/-- A scanner can be asked for a token as often as one likes. -/
theorem stream_ofText (source : String) (n : Nat) :
    (ofText source).bind (stream n) = some ((Cursor.ofText source).stream n) := by
  obtain ⟨k, hk, hfollows⟩ := follows_ofText source
  rw [hk, Option.bind_some, hfollows.stream]

end Scanner

end MonkeyLang
