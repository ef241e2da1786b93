import MonkeyLang.Host.Memory
import MonkeyLang.Proofs.Grammar.Parse
import MonkeyLang.Session.Basic

/-!
# Brackets in programs

The brackets of a program are well nested.  Every rule of the grammar keeps this: it puts the
tokens of its parts one behind the other, with tokens between them that are no brackets, or it
puts an opening bracket before a part and the closing one of the same kind behind it.

A session counts braces only, and it counts the tokens of an entry and not what is read from
them.  As the braces of a program come in pairs, it never waits for more behind an entry that is
a program as it stands.
-/

namespace MonkeyLang

namespace Kind

/-- The bracket that closes what a bracket opens. -/
def closer? : Kind → Option Kind
  | leftParen => rightParen
  | leftBracket => rightBracket
  | leftBrace => rightBrace
  | _ => none

/-- The brackets that open something. -/
def isOpener (k : Kind) : Bool :=
  k.closer?.isSome

/-- The brackets that close something. -/
def isCloser : Kind → Bool
  | rightParen | rightBracket | rightBrace => true
  | _ => false

/-- The brackets of the language. -/
def isBracket (k : Kind) : Bool :=
  k.isOpener || k.isCloser

theorem closer?_eq_some_iff {o c : Kind} : o.closer? = some c ↔
    o = .leftParen ∧ c = .rightParen ∨ o = .leftBracket ∧ c = .rightBracket ∨
      o = .leftBrace ∧ c = .rightBrace := by
  constructor
  · intro h
    rw [closer?.eq_def] at h
    split at h <;> cases h <;> decide
  · rintro (⟨rfl, rfl⟩ | ⟨rfl, rfl⟩ | ⟨rfl, rfl⟩) <;> rfl

section

variable {o c : Kind} (hclose : o.closer? = some c)

include hclose

theorem isOpener_opener : o.isOpener = true := by
  rw [isOpener, hclose]
  rfl

theorem isCloser_opener : o.isCloser = false := by
  rcases closer?_eq_some_iff.mp hclose with ⟨rfl, -⟩ | ⟨rfl, -⟩ | ⟨rfl, -⟩ <;> rfl

theorem isOpener_closer : c.isOpener = false := by
  rcases closer?_eq_some_iff.mp hclose with ⟨-, rfl⟩ | ⟨-, rfl⟩ | ⟨-, rfl⟩ <;> rfl

theorem isCloser_closer : c.isCloser = true := by
  rcases closer?_eq_some_iff.mp hclose with ⟨-, rfl⟩ | ⟨-, rfl⟩ | ⟨-, rfl⟩ <;> rfl

theorem countP_opener (ks : List Kind) :
    (o :: ks).countP isOpener = ks.countP isOpener + 1 ∧
      (o :: ks).countP isCloser = ks.countP isCloser :=
  ⟨List.countP_cons_of_pos (isOpener_opener hclose),
    List.countP_cons_of_neg (Bool.eq_false_iff.mp (isCloser_opener hclose))⟩

theorem countP_pair (ks ls : List Kind) :
    (o :: (ks ++ c :: ls)).countP isOpener = ks.countP isOpener + ls.countP isOpener + 1 ∧
      (o :: (ks ++ c :: ls)).countP isCloser = ks.countP isCloser + ls.countP isCloser + 1 := by
  obtain ⟨hopener, hcloser⟩ := countP_opener hclose (ks ++ c :: ls)
  rw [hopener, hcloser, List.countP_append, List.countP_append,
    List.countP_cons_of_neg (Bool.eq_false_iff.mp (isOpener_closer hclose)),
    List.countP_cons_of_pos (isCloser_closer hclose)]
  exact ⟨rfl, rfl⟩

end

end Kind

/-- The brackets among some tokens. -/
def brackets {π : Type} (ts : List (Token π)) : List Kind :=
  (ts.map (·.kind)).filter Kind.isBracket

/-- Brackets that are closed in the order opposite to that in which they are opened, each by one
of its kind. -/
inductive WellNested : List Kind → Prop
  | nil : WellNested []
  | pair {o c : Kind} {inside rest : List Kind} (hclose : o.closer? = some c)
      (hinside : WellNested inside) (hrest : WellNested rest) :
      WellNested (o :: (inside ++ c :: rest))

namespace WellNested

variable {ks ls : List Kind}

theorem append (hks : WellNested ks) (hls : WellNested ls) : WellNested (ks ++ ls) := by
  induction hks with
  | nil => exact hls
  | pair hclose hinside hrest _ ih =>
      rw [List.cons_append, List.append_assoc, List.cons_append]
      exact .pair hclose hinside ih

/-- Of each kind there are as many opening brackets as closing ones. -/
theorem count_eq (h : WellNested ks) {o c : Kind} (hclose : o.closer? = some c) :
    ks.count o = ks.count c := by
  induction h with
  | nil => rfl
  | @pair o' c' inside rest hclose' _ _ ihinside ihrest =>
      have hpair : [o'].count o + [c'].count o = [o'].count c + [c'].count c := by
        rw [Kind.closer?_eq_some_iff] at hclose hclose'
        rcases hclose with ⟨rfl, rfl⟩ | ⟨rfl, rfl⟩ | ⟨rfl, rfl⟩ <;>
          rcases hclose' with ⟨rfl, rfl⟩ | ⟨rfl, rfl⟩ | ⟨rfl, rfl⟩ <;> decide
      simp only [List.count_singleton] at hpair
      simp only [List.count_cons, List.count_append]
      omega

/-- There are as many opening brackets as closing ones. -/
theorem countP_eq (h : WellNested ks) : ks.countP Kind.isOpener = ks.countP Kind.isCloser := by
  induction h with
  | nil => rfl
  | @pair o c inside rest hclose _ _ ihinside ihrest =>
      obtain ⟨hopener, hcloser⟩ := Kind.countP_pair hclose inside rest
      rw [hopener, hcloser, ihinside, ihrest]

end WellNested

/-- Where a kind may stand in a pair of brackets and what follows it. -/
theorem pair_split {o c k : Kind} {inside rest front back : List Kind}
    (h : o :: (inside ++ c :: rest) = front ++ k :: back) :
    front = [] ∧ k = o ∨
    (∃ front' back', front = o :: front' ∧ inside = front' ++ k :: back') ∨
    front = o :: inside ∧ k = c ∨
    ∃ front', front = o :: (inside ++ c :: front') ∧ rest = front' ++ k :: back := by
  cases front with
  | nil => exact .inl ⟨rfl, (List.cons.inj h).1.symm⟩
  | cons d front =>
      obtain ⟨rfl, hrest⟩ := List.cons.inj h
      refine .inr ?_
      rcases List.append_eq_append_iff.mp hrest with ⟨m, rfl, hmore⟩ | ⟨m, rfl, hmore⟩
      · cases m with
        | nil =>
            obtain ⟨rfl, -⟩ := List.cons.inj hmore
            exact .inr (.inl ⟨by rw [List.append_nil], rfl⟩)
        | cons e m =>
            obtain ⟨rfl, rfl⟩ := List.cons.inj hmore
            exact .inr (.inr ⟨m, rfl, rfl⟩)
      · cases m with
        | nil =>
            obtain ⟨rfl, -⟩ := List.cons.inj hmore
            exact .inr (.inl ⟨by rw [List.append_nil], rfl⟩)
        | cons e m =>
            obtain ⟨rfl, -⟩ := List.cons.inj hmore
            exact .inl ⟨front, m, rfl, rfl⟩

namespace WellNested

variable {ks : List Kind}

/-- Before any bracket, no more have been closed than opened. -/
theorem countP_front (h : WellNested ks) {front back : List Kind} {k : Kind}
    (hsplit : ks = front ++ k :: back) :
    front.countP Kind.isCloser ≤ front.countP Kind.isOpener := by
  induction h generalizing front back with
  | nil => simp at hsplit
  | @pair o c inside rest hclose hinside _ ihinside ihrest =>
      have htotal := hinside.countP_eq
      rcases pair_split hsplit with
        ⟨rfl, -⟩ | ⟨front', back', rfl, hin⟩ | ⟨rfl, -⟩ | ⟨front', rfl, hin⟩
      · exact Nat.le_refl 0
      · obtain ⟨hopener, hcloser⟩ := Kind.countP_opener hclose front'
        have hle := ihinside hin
        omega
      · obtain ⟨hopener, hcloser⟩ := Kind.countP_opener hclose inside
        omega
      · obtain ⟨hopener, hcloser⟩ := Kind.countP_pair hclose inside front'
        have hle := ihrest hin
        omega

theorem countP_prefix (h : WellNested ks) {front : List Kind} (hfront : front <+: ks) :
    front.countP Kind.isCloser ≤ front.countP Kind.isOpener := by
  obtain ⟨back, rfl⟩ := hfront
  cases back with
  | nil =>
      rw [List.append_nil] at h
      exact Nat.le_of_eq h.countP_eq.symm
  | cons k back => exact h.countP_front rfl

/-- A closing bracket closes the bracket of its kind behind which everything is closed. -/
theorem exists_opener (h : WellNested ks) {front back : List Kind} {c : Kind}
    (hsplit : ks = front ++ c :: back) (hc : c.isCloser = true) :
    ∃ before o inside, front = before ++ o :: inside ∧ o.closer? = some c ∧
      WellNested inside := by
  induction h generalizing front back with
  | nil => simp at hsplit
  | @pair o c' inside rest hclose hinside _ ihinside ihrest =>
      rcases pair_split hsplit with
        ⟨-, rfl⟩ | ⟨front', back', rfl, hin⟩ | ⟨rfl, rfl⟩ | ⟨front', rfl, hin⟩
      · exact absurd hc (Bool.eq_false_iff.mp (Kind.isCloser_opener hclose))
      · obtain ⟨before, o', inside', rfl, hfound⟩ := ihinside hin
        exact ⟨o :: before, o', inside', rfl, hfound⟩
      · exact ⟨[], o, inside, rfl, hclose, hinside⟩
      · obtain ⟨before, o', inside', rfl, hfound⟩ := ihrest hin
        refine ⟨o :: (inside ++ c' :: before), o', inside', ?_, hfound⟩
        rw [List.cons_append, List.append_assoc, List.cons_append]

end WellNested

/-! ## Tokens with nested brackets -/

/-- The brackets among some tokens are well nested. -/
def Nested {π : Type} (ts : List (Token π)) : Prop :=
  WellNested (brackets ts)

section

variable {π : Type} {ts us : List (Token π)} {t o c : Token π}

theorem brackets_append : brackets (ts ++ us) = brackets ts ++ brackets us := by
  rw [brackets, List.map_append, List.filter_append]
  rfl

theorem brackets_plain (ht : t.kind.isBracket = false) : brackets (t :: ts) = brackets ts := by
  rw [brackets, List.map_cons, List.filter_cons, ht]
  rfl

theorem brackets_bracket (ht : t.kind.isBracket = true) :
    brackets (t :: ts) = t.kind :: brackets ts := by
  rw [brackets, List.map_cons, List.filter_cons, ht]
  rfl

theorem nested_nil : Nested ([] : List (Token π)) := .nil

theorem Nested.append (hts : Nested ts) (hus : Nested us) : Nested (ts ++ us) := by
  rw [Nested, brackets_append]
  exact WellNested.append hts hus

theorem Nested.plain (ht : t.kind.isBracket = false) (hts : Nested ts) : Nested (t :: ts) := by
  rw [Nested, brackets_plain ht]
  exact hts

theorem Nested.wrap (hclose : o.kind.closer? = some c.kind) (hts : Nested ts)
    (hus : Nested us) : Nested (o :: (ts ++ c :: us)) := by
  have ho : o.kind.isBracket = true := by
    rw [Kind.isBracket, Kind.isOpener_opener hclose]
    rfl
  have hc : c.kind.isBracket = true := by
    rw [Kind.isBracket, Kind.isCloser_closer hclose, Bool.or_true]
  rw [Nested, brackets_bracket ho, brackets_append, brackets_bracket hc]
  exact .pair hclose hts hus

end

theorem BinaryOp.isBracket_kind (op : BinaryOp) : op.kind.isBracket = false := by
  cases op <;> rfl

theorem UnaryOp.isBracket_kind (op : UnaryOp) : op.kind.isBracket = false := by
  cases op <;> rfl

theorem BindingKind.isBracket_kind (kind : BindingKind) : kind.kind.isBracket = false := by
  cases kind <;> rfl

namespace Grammar

variable {π : Type}

/-- Brackets are nested in the tokens of every symbol of the grammar. -/
theorem Derivation.nested {s : Symbol π} {ts : List (Token π)} {a : s.Tree}
    (d : Derivation s ts a) : Nested ts := by
  -- `wrap` and `plain` take what the kinds of the tokens say
  have close {o c : Token π} {k k' : Kind} (ho : o.kind = k) (hc : c.kind = k')
      (hclose : k.closer? = some k' := by rfl) : o.kind.closer? = some c.kind := by
    rw [ho, hc, hclose]
  have plain {t : Token π} {k : Kind} (ht : t.kind = k) (hk : k.isBracket = false := by rfl) :
      t.kind.isBracket = false := by
    rw [ht, hk]
  induction d with
  | assign _ ht _ ihtarget ihvalue => exact ihtarget.append (.plain (plain ht) ihvalue)
  | operation _ ih => exact ih
  | level _ _ ihfirst ihmore => exact ihfirst.append ihmore
  | chainEnd => exact nested_nil
  | chainStep ht _ _ _ ihoperand ihmore =>
      exact .plain (plain ht (BinaryOp.isBracket_kind _)) (ihoperand.append ihmore)
  | unaryStep ht _ ih => exact .plain (plain ht (UnaryOp.isBracket_kind _)) ih
  | unaryEnd _ ih => exact ih
  | postfixed _ _ ihfirst ihmore => exact ihfirst.append ihmore
  | suffixEnd => exact nested_nil
  | callStep ho _ hc _ ihargs ihmore => exact .wrap (close ho hc) ihargs ihmore
  | indexStep ho _ hc _ ihindex ihmore => exact .wrap (close ho hc) ihindex ihmore
  | ident ht => exact .plain (plain ht) nested_nil
  | int ht _ => exact .plain (plain ht) nested_nil
  | str ht => exact .plain (plain ht) nested_nil
  | yes ht => exact .plain (plain ht) nested_nil
  | no ht => exact .plain (plain ht) nested_nil
  | group ho _ hc ih => exact .wrap (close ho hc) ih nested_nil
  | choice _ ih => exact ih
  | loop ht _ _ ihcondition ihbody => exact .plain (plain ht) (ihcondition.append ihbody)
  | func ht ho _ hc _ ihparams ihbody =>
      exact .plain (plain ht) (.wrap (close ho hc) ihparams ihbody)
  | array ho _ hc ih => exact .wrap (close ho hc) ih nested_nil
  | hash ho _ hc ih => exact .wrap (close ho hc) ih nested_nil
  | conditional ht _ _ _ ihcondition ihconsequence ihalternative =>
      exact .plain (plain ht) (ihcondition.append (ihconsequence.append ihalternative))
  | noElse => exact nested_nil
  | elseBlock ht _ ih => exact .plain (plain ht) ih
  | elseIf ht _ ih => exact .plain (plain ht) ih
  | block ho _ hc ih => exact .wrap (close ho hc) ih nested_nil
  | targetName ht => exact .plain (plain ht) nested_nil
  | targetGroup ho _ hc ih => exact .wrap (close ho hc) ih nested_nil
  | name ht => exact .plain (plain ht) nested_nil
  | pair _ ht _ ihkey ihvalue => exact ihkey.append (.plain (plain ht) ihvalue)
  | one _ ih => exact ih
  | more _ ht _ ih ihrest => exact ih.append (.plain (plain ht) ihrest)
  | empty => exact nested_nil
  | items _ ih => exact ih
  | declare ht hu hv _ ih =>
      exact .plain (plain ht (BindingKind.isBracket_kind _))
        (.plain (plain hu) (.plain (plain hv) ih))
  | ret ht _ ih => exact .plain (plain ht) ih
  | expr _ ih => exact ih
  | noStatements => exact nested_nil
  | ended _ ht _ ihfirst ihrest => exact ihfirst.append (.plain (plain ht) ihrest)
  | unended _ _ _ ihfirst ihrest => exact ihfirst.append ihrest

end Grammar

/-! ## Complete entries -/

/-- Brackets are well nested, and so there are as many closing brackets of each kind as opening
ones, at no place more have been closed than opened, and each closes the last one that is still
open, which is of its kind. -/
structure BracketWord (ks : List Kind) : Prop where
  nested : WellNested ks
  counts : ∀ o c, o.closer? = some c → ks.count o = ks.count c
  fronts : ∀ front, front <+: ks → front.countP Kind.isCloser ≤ front.countP Kind.isOpener
  closers : ∀ front c back, ks = front ++ c :: back → c.isCloser = true →
    ∃ before o inside, front = before ++ o :: inside ∧ o.closer? = some c ∧ WellNested inside

theorem WellNested.bracketWord {ks : List Kind} (h : WellNested ks) : BracketWord ks :=
  ⟨h, fun _ _ => h.count_eq, fun _ => h.countP_prefix, fun _ _ _ => h.exists_opener⟩

theorem isOpen_of_nested {source : String} (h : Nested (tokens source)) :
    Session.isOpen source = false := by
  have hbraces := WellNested.count_eq h (o := .leftBrace) rfl
  rw [brackets, List.count_filter rfl, List.count_filter rfl] at hbraces
  rw [Session.isOpen, hbraces]
  exact decide_eq_false (Nat.lt_irrefl _)

theorem nested_of_parse {source : String} {p : Program (Token Position)}
    (h : parse source = .ok p) : Nested (tokens source) := by
  obtain ⟨d⟩ := (statements_eq_iff _ _ _).mp ((parse_eq_ok_iff source p).mp h)
  exact d.nested

variable {m : Type → Type} [Monad m] [Terminal m]

theorem Session.entry_eq_pure {source : String} (h : isOpen source = false) (n : Nat) :
    (entry (n + 1) source : Run m String) = pure source := by
  rw [entry, h]
  rfl

/-- The brackets of a program are well nested, so a session does not ask for another line when an
entry is a program.  When it does ask, there are errors in the entry as it stands. -/
theorem programs_leave_nothing_open (source : String) :
    (∀ p, parse source = .ok p →
      BracketWord (brackets (tokens source)) ∧ Session.isOpen source = false ∧
      ∀ n, (Session.entry (n + 1) source : Run m String) = pure source) ∧
    (Session.isOpen source = true →
      ∃ errors, parse source = .error errors ∧ errors ≠ []) := by
  refine ⟨fun p hp => ?_, fun hopen => ?_⟩
  · have hclosed := isOpen_of_nested (nested_of_parse hp)
    exact ⟨WellNested.bracketWord (nested_of_parse hp), hclosed, Session.entry_eq_pure hclosed⟩
  · have hfails (p : Program (Token Position)) : parse source ≠ .ok p := by
      intro hp
      rw [isOpen_of_nested (nested_of_parse hp)] at hopen
      cases hopen
    rw [parse] at hfails ⊢
    cases herrors : (parseText source).errors with
    | nil => exact absurd (if_pos (by rw [herrors]; rfl)) (hfails (parseText source).program)
    | cons e es => exact ⟨e :: es, rfl, List.cons_ne_nil e es⟩

/-- A text with brackets of each kind, and with a brace in a string. -/
def bracketText : String :=
  "f([1, \x7b\"\x7d\": (2)\x7d], func(x) \x7b x[0] \x7d)"

/-- The first line of a text, with a brace that is closed only in a string. -/
def openLine : String :=
  "if (x) \x7b \"\x7d\""

/-- A brace in a string closes nothing: behind the one text nothing is asked for, and the other
is no program. -/
theorem bracketText_leaves_nothing_open :
    brackets (tokens bracketText) =
      [.leftParen, .leftBracket, .leftBrace, .leftParen, .rightParen, .rightBrace,
        .rightBracket, .leftParen, .rightParen, .leftBrace, .leftBracket, .rightBracket,
        .rightBrace, .rightParen] ∧
    (∃ p, parse bracketText = .ok p ∧ BracketWord (brackets (tokens bracketText)) ∧
      (Session.entry 1 bracketText : Run (StateM Desk) String) = pure bracketText) ∧
    Session.isOpen openLine = true ∧
    ∃ errors, parse openLine = .error errors ∧ errors ≠ [] := by
  have hok : (parse bracketText).isOk = true := by decide +kernel
  have hopen : Session.isOpen openLine = true := by decide +kernel
  obtain ⟨p, hp⟩ : ∃ p, parse bracketText = .ok p := by
    cases hparse : parse bracketText with
    | ok p => exact ⟨p, rfl⟩
    | error errors =>
        rw [hparse] at hok
        cases hok
  obtain ⟨hword, -, hentry⟩ :=
    (programs_leave_nothing_open (m := StateM Desk) bracketText).1 p hp
  exact ⟨by decide +kernel, ⟨p, hp, hword, hentry 0⟩, hopen,
    (programs_leave_nothing_open (m := StateM Desk) openLine).2 hopen⟩

end MonkeyLang
