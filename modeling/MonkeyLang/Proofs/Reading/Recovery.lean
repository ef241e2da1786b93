import Mathlib.Data.List.Basic
import MonkeyLang.Proofs.Grammar.Joined

/-!
# Malformed declarations among statements

A declaration without a name or without an equals sign costs one error and no more than
itself.  Behind such an error everything is passed over up to the semicolon, whatever it is:
brackets that are not closed, words that would begin another declaration, characters that
belong to no token.  The next statement is then begun where it begins when it stands alone.

The step is from one item to the tokens behind it, which can be any tokens.  So it makes no
difference whether the items are followed by the end of the text or by a closing brace.
-/

namespace MonkeyLang

open Grammar Reading

variable {π : Type}

/-! ## Items -/

/-- Tokens begin as a declaration does behind its word: with a name and an equals sign. -/
def BeginsDeclaring (ts : List (Token π)) : Prop :=
  ∃ x e r, ts = x :: e :: r ∧ x.kind = .identifier ∧ e.kind = .equal

/-- A declaration that does not begin like one, with the semicolon behind it.  Between its
word and the semicolon there can be anything but a semicolon or a closing brace. -/
structure MalformedDeclaration (π : Type) where
  kind : BindingKind
  word : Token π
  junk : List (Token π)
  stop : Token π
  word_kind : word.kind = kind.kind
  junk_kind : ∀ t ∈ junk, t.kind ≠ .semicolon ∧ t.kind ≠ .rightBrace
  junk_not_begins : ¬BeginsDeclaring junk
  stop_kind : stop.kind = .semicolon

namespace MalformedDeclaration

def tokens (m : MalformedDeclaration π) : List (Token π) :=
  m.word :: (m.junk ++ [m.stop])

/-- The kind of token that is missed, and the token that stands in its place: a name is missed
behind the word, and an equals sign behind a name. -/
def missed (m : MalformedDeclaration π) : Kind × Token π :=
  match m.junk with
  | [] => (.identifier, m.stop)
  | t :: r => if t.kind = .identifier then (.equal, r.headD m.stop) else (.identifier, t)

/-- The one error that is found. -/
def error (m : MalformedDeclaration π) : ParseError π :=
  ⟨.expected m.missed.1 m.missed.2.kind, m.missed.2.pos⟩

end MalformedDeclaration

/-- A statement that is well-formed, with the semicolon behind it: together they are read as
just this statement. -/
structure EndedStatement (π : Type) where
  covered : List (Token π)
  stop : Token π
  stmt : Stmt (Token π)
  stop_kind : stop.kind = .semicolon
  alone : ∃ endPos, parseTokens endPos (covered ++ [stop]) = ⟨⟨[stmt]⟩, []⟩

def EndedStatement.tokens (s : EndedStatement π) : List (Token π) :=
  s.covered ++ [s.stop]

/-- A part of a program or of a block. -/
inductive Item (π : Type) where
  | statement (s : EndedStatement π)
  | malformed (m : MalformedDeclaration π)

namespace Item

def tokens : Item π → List (Token π)
  | statement s => s.tokens
  | malformed m => m.tokens

/-- The statement that is built of an item. -/
def built? : Item π → Option (Stmt (Token π))
  | statement s => some s.stmt
  | malformed _ => none

/-- The error that is found in an item. -/
def error? : Item π → Option (ParseError π)
  | statement _ => none
  | malformed m => some m.error

end Item

/-! ## What is read of malformed declarations -/

namespace Reading

variable {endPos : π}

theorem expect_reports {want : Kind} {t : Token π} (ht : t.kind ≠ want) (r : List (Token π)) :
    (expect endPos want (t :: r)).Reports none (t :: r) [⟨.expected want t.kind, t.pos⟩] := by
  rw [expect, if_neg ht]
  exact ⟨rfl, rfl, rfl⟩

theorem declarationHead_of_no_name {t : Token π} (ht : t.kind ≠ .identifier)
    (r : List (Token π)) : (declarationHead endPos (t :: r)).Reports none (t :: r)
      [⟨.expected .identifier t.kind, t.pos⟩] := by
  rw [declarationHead]
  exact (expect_reports ht r).andThen_none _

theorem declarationHead_of_no_equal {t u : Token π} (ht : t.kind = .identifier)
    (hu : u.kind ≠ .equal) (r : List (Token π)) :
    (declarationHead endPos (t :: u :: r)).Reports none (u :: r)
      [⟨.expected .equal u.kind, u.pos⟩] := by
  rw [declarationHead]
  refine (expect_gives ht _).reports.andThen _ fun _ => ?_
  exact ((expect_reports hu r).map _).weaken _

/-- What cannot end a malformed statement is passed over, with the semicolon that does. -/
theorem skipStatement_append {junk : List (Token π)} {stop : Token π}
    (hjunk : ∀ t ∈ junk, t.kind ≠ .semicolon ∧ t.kind ≠ .rightBrace)
    (hstop : stop.kind = .semicolon) (rest : List (Token π)) :
    skipStatement (junk ++ stop :: rest) = rest := by
  rw [skipStatement, List.dropWhile_append_of_pos fun t ht => by simp [hjunk t ht]]
  simp [skipSemicolon, hstop]

end Reading

namespace MalformedDeclaration

/-- Where the head of the declaration fails, only junk is left before its semicolon. -/
theorem head_reports (m : MalformedDeclaration π) (endPos : π) (rest : List (Token π)) :
    ∃ left, (∀ t ∈ left, t ∈ m.junk) ∧
      (declarationHead endPos (m.junk ++ m.stop :: rest)).Reports none (left ++ m.stop :: rest)
        [m.error] := by
  have hstop {k : Kind} (hk : Kind.semicolon ≠ k) : m.stop.kind ≠ k := m.stop_kind ▸ hk
  cases hjunk : m.junk with
  | nil =>
      refine ⟨[], by simp, ?_⟩
      rw [error, missed, hjunk]
      exact declarationHead_of_no_name (hstop (by decide)) rest
  | cons t r =>
      by_cases ht : t.kind = .identifier
      · cases r with
        | nil =>
            refine ⟨[], by simp, ?_⟩
            rw [error, missed, hjunk]
            simp only [ht, if_true]
            exact declarationHead_of_no_equal ht (hstop (by decide)) rest
        | cons u r =>
            have hu : u.kind ≠ .equal := fun hu => m.junk_not_begins ⟨t, u, r, hjunk, ht, hu⟩
            refine ⟨u :: r, fun v hv => List.mem_cons_of_mem t hv, ?_⟩
            rw [error, missed, hjunk]
            simp only [ht, if_true]
            exact declarationHead_of_no_equal ht hu (r ++ m.stop :: rest)
      · refine ⟨t :: r, fun v hv => hv, ?_⟩
        rw [error, missed, hjunk]
        simp only [ht, if_false]
        exact declarationHead_of_no_name ht (r ++ m.stop :: rest)

theorem reports (m : MalformedDeclaration π) (endPos : π) (rest : List (Token π)) :
    (Reading.statement endPos m.word (m.junk ++ m.stop :: rest)).Reports none rest [m.error] := by
  obtain ⟨left, hleft, hhead⟩ := m.head_reports endPos rest
  have hskipped := hhead.recover_none skipStatement length_skipStatement_le
  rw [skipStatement_append (fun t ht => m.junk_kind t (hleft t ht)) m.stop_kind] at hskipped
  rw [statement_eq_declaration m.word_kind, declaration]
  exact hskipped.andThen_none _

end MalformedDeclaration

/-! ## What is read of statements -/

/-- What is read as one statement up to a semicolon is that statement. -/
theorem parseTokens_ended_iff (endPos : π) {ts : List (Token π)} {stop : Token π}
    {s : Stmt (Token π)} (hstop : stop.kind = .semicolon) :
    parseTokens endPos (ts ++ [stop]) = ⟨⟨[s]⟩, []⟩ ↔ Derived .statement ts s := by
  have hread : parseTokens endPos (ts ++ [stop]) = ⟨⟨[s]⟩, []⟩ ↔
      Reading.statements endPos (ts ++ [stop]) = ([s], []) := by
    rw [parseTokens, Parsed.mk.injEq, Program.mk.injEq, Prod.ext_iff]
  rw [hread, statements_eq_iff]
  constructor
  · rintro ⟨d⟩
    generalize hall : ts ++ [stop] = all at d
    cases d with
    | ended first ht more =>
        cases more
        obtain ⟨rfl, -⟩ := List.append_inj' hall rfl
        exact ⟨first⟩
    | unended first more =>
        cases more
        -- the statement itself would end with the semicolon
        rw [List.append_nil] at hall
        refine absurd hstop (first.endsOpen trivial stop ?_)
        rw [← hall, List.getLast?_concat]
        rfl
  · rintro ⟨d⟩
    exact ⟨.ended d hstop .noStatements⟩

theorem EndedStatement.derived (s : EndedStatement π) : Derived .statement s.covered s.stmt := by
  obtain ⟨endPos, halone⟩ := s.alone
  exact (parseTokens_ended_iff endPos s.stop_kind).mp halone

/-! ## What is read of items -/

variable {endPos : π}

/-- An item is read up to the tokens behind it, whatever these are. -/
theorem Item.reports (i : Item π) (endPos : π) : ∃ t r, i.tokens = t :: r ∧ t.kind ≠ .rightBrace ∧
    ∀ rest, (Reading.statement endPos t (r ++ rest)).Reports i.built? rest i.error?.toList := by
  cases i with
  | statement s =>
      obtain ⟨d⟩ := s.derived
      obtain ⟨t, r, hcovered, ht⟩ := d.first rfl
      obtain ⟨t', r', hcovered', hread⟩ := d.reads endPos
      obtain ⟨rfl, rfl⟩ := List.cons.inj (hcovered.symm.trans hcovered')
      refine ⟨t, r ++ [s.stop], by rw [tokens, EndedStatement.tokens, hcovered]; rfl, ?_, ?_⟩
      · intro hbrace
        rw [hbrace] at ht
        exact absurd ht (by decide)
      · intro rest
        have hstops := stops_close (by decide) (by decide) s.stop_kind rest
        have hgives := (hread _ hstops).reports
        rw [skipSemicolon, if_pos s.stop_kind] at hgives
        rw [List.append_assoc]
        exact hgives
  | malformed m =>
      refine ⟨m.word, m.junk ++ [m.stop], rfl, ?_, fun rest => ?_⟩
      · rw [m.word_kind]
        cases m.kind <;> decide
      · rw [List.append_assoc]
        exact m.reports endPos rest

/-- What is read of the items of a program. -/
theorem statements_items (items : List (Item π)) :
    Reading.statements endPos (items.flatMap Item.tokens) =
      (items.filterMap Item.built?, items.filterMap Item.error?) := by
  simp only [List.filterMap_eq_flatMap_toList]
  induction items with
  | nil => rw [List.flatMap_nil, Reading.statements]; rfl
  | cons i items ih =>
      obtain ⟨t, r, htokens, -, hread⟩ := i.reports endPos
      rw [List.flatMap_cons, htokens, List.cons_append, statements_of_reports (hread _), ih,
        List.flatMap_cons, List.flatMap_cons]

/-- What is read of the items of a block. -/
theorem blockStatements_items (items : List (Item π)) {close : Token π}
    (hclose : close.kind = .rightBrace) (rest : List (Token π)) :
    (Reading.blockStatements endPos (items.flatMap Item.tokens ++ close :: rest)).Reports
      (some (items.filterMap Item.built?)) rest (items.filterMap Item.error?) := by
  simp only [List.filterMap_eq_flatMap_toList]
  induction items with
  | nil =>
      rw [List.flatMap_nil, List.nil_append, blockStatements, if_pos hclose]
      exact ⟨rfl, rfl, rfl⟩
  | cons i items ih =>
      obtain ⟨t, r, htokens, ht, hread⟩ := i.reports endPos
      rw [List.flatMap_cons, htokens, List.append_assoc, List.cons_append, blockStatements,
        if_neg ht]
      exact (hread _).andThenAny fun _ => (ih.map _).weaken _

/-- Malformed declarations are the cost of themselves only.  Of items in any order, in a program
or in a block, just the well-formed statements are built, each as it is when it stands alone,
and just one error is found in each malformed declaration. -/
theorem malformed_cost_themselves_only (items : List (Item π)) (endPos : π) :
    parseTokens endPos (items.flatMap Item.tokens) =
        ⟨⟨items.filterMap Item.built?⟩, items.filterMap Item.error?⟩ ∧
      (∀ (brace close : Token π) (rest : List (Token π)), close.kind = .rightBrace →
        (Reading.block endPos brace (items.flatMap Item.tokens ++ close :: rest)).Reports
          (some (.mk brace (items.filterMap Item.built?))) rest (items.filterMap Item.error?)) ∧
      ∀ s, .statement s ∈ items → ∀ {ρ : Type} (endPos' : ρ) (us : List (Token ρ)),
        us.map (Token.map fun _ => ()) = s.tokens.map (Token.map fun _ => ()) →
          (parseTokens endPos' us).program.map (Token.map fun _ => ()) =
              ⟨[s.stmt.map (Token.map fun _ => ())]⟩ ∧
            (parseTokens endPos' us).errors = [] := by
  refine ⟨?_, fun brace close rest hclose => ?_, fun s _ ρ endPos' us hus => ?_⟩
  · rw [parseTokens, statements_items]
  · rw [Reading.block]
    exact (blockStatements_items items hclose rest).map _
  · obtain ⟨endPos'', halone⟩ := s.alone
    obtain ⟨hprogram, herrors⟩ := parseTokens_of_bare endPos'' endPos' hus
    rw [EndedStatement.tokens, halone] at hprogram herrors
    exact ⟨hprogram, List.map_eq_nil_iff.mp herrors⟩

/-! ## Declarations that break off -/

/-- What stands between the braces of `{ var ( [ val 1; x; val y else @; }`, with the numbers
of the tokens for places. -/
def brokenOff : List (Item Nat) :=
  [.malformed
    { kind := .var
      word := ⟨.kwVar, "var", 1⟩
      junk := [⟨.leftParen, "(", 2⟩, ⟨.leftBracket, "[", 3⟩, ⟨.kwVal, "val", 4⟩,
        ⟨.integer, "1", 5⟩]
      stop := ⟨.semicolon, ";", 6⟩
      word_kind := rfl
      junk_kind := by decide
      junk_not_begins := by rintro ⟨_, _, _, ⟨⟩, ⟨⟩, -⟩
      stop_kind := rfl },
  .statement
    { covered := [⟨.identifier, "x", 7⟩]
      stop := ⟨.semicolon, ";", 8⟩
      stmt := .expr ⟨.identifier, "x", 7⟩ (.ident ⟨⟨.identifier, "x", 7⟩, "x"⟩)
      stop_kind := rfl
      alone := by
        have hname : Derived (.expr .primary) [(⟨.identifier, "x", 7⟩ : Token Nat)] _ :=
          ⟨.ident rfl⟩
        obtain ⟨d⟩ := hname.loosen (y := .expression) (by decide)
        exact ⟨9, (parseTokens_ended_iff 9 rfl).mpr ⟨.expr d⟩⟩ },
  .malformed
    { kind := .val
      word := ⟨.kwVal, "val", 9⟩
      junk := [⟨.identifier, "y", 10⟩, ⟨.kwElse, "else", 11⟩, ⟨.illegal, "@", 12⟩]
      stop := ⟨.semicolon, ";", 13⟩
      word_kind := rfl
      junk_kind := by decide
      junk_not_begins := by rintro ⟨_, _, _, ⟨⟩, -, ⟨⟩⟩
      stop_kind := rfl }]

/-- The name is read as it is when it stands alone, with one error before it and one behind
it. -/
theorem brokenOff_cost_themselves_only :
    bareTokens "var ( [ val 1; x; val y else @;".toList =
        (brokenOff.flatMap Item.tokens).map (Token.map fun _ => ()) ∧
      (parseTokens 14 (brokenOff.flatMap Item.tokens)).program.statements.map Stmt.render =
        ["x"] ∧
      (parseTokens 14 (brokenOff.flatMap Item.tokens)).errors =
        [⟨.expected .identifier .leftParen, 2⟩, ⟨.expected .equal .kwElse, 11⟩] ∧
      (Reading.block 15 ⟨.leftBrace, "\x7b", 0⟩
        (brokenOff.flatMap Item.tokens ++ [⟨.rightBrace, "\x7d", 14⟩])).errors =
        [⟨.expected .identifier .leftParen, 2⟩, ⟨.expected .equal .kwElse, 11⟩] ∧
      (parseText "x;").errors = [] := by
  obtain ⟨hprogram, -, halone⟩ := malformed_cost_themselves_only brokenOff 14
  obtain ⟨-, hblock, -⟩ := malformed_cost_themselves_only brokenOff 15
  refine ⟨by decide +kernel, ?_, ?_, ?_, ?_⟩
  · rw [hprogram]
    rfl
  · rw [hprogram]
    rfl
  · rw [(hblock ⟨.leftBrace, "\x7b", 0⟩ ⟨.rightBrace, "\x7d", 14⟩ [] rfl).errors]
    rfl
  · exact (halone _ (.tail _ (.head _)) _ (tokens "x;") (by decide +kernel)).2

end MonkeyLang
