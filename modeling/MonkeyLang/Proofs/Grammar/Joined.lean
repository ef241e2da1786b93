import MonkeyLang.Proofs.Grammar.RoundTrip
import MonkeyLang.Proofs.Token.Gaps

/-!
# Texts one after the other

A text whose last token is a semicolon can be joined with another one: the tokens
of both are those of the one and then those of the other, and if both are programs,
so is the text joined of them, with the statements of both.

No word, number or sign goes on over a semicolon.  And a statement that ends with its
last token before the second text would have to end with the semicolon, which no
statement does; so all of them are ended before the second text begins.
-/

namespace MonkeyLang

/-! ## Tokens -/

/-- A semicolon at the end of a text stands there if the text goes on. -/
theorem Lexeme.Stands.append_semicolon {before : List Char} {l : Lexeme}
    (h : l.Stands before []) (hkind : l.kind = .semicolon) (more : List Char) :
    l.Stands before more := by
  cases h with
  | keyword hrun hmem =>
      have hkeywords : ∀ e ∈ Kind.keywords, e.2 ≠ .semicolon := by decide
      exact absurd hkind (hkeywords _ hmem)
  | identifier | integer | closed | unclosed | illegal => cases hkind
  | @pair c kind hmem =>
      obtain rfl : kind = .semicolon := hkind
      rw [Kind.ofSignEqual?.eq_def] at hmem
      split at hmem <;> cases hmem
  | @sign c kind hmem halone =>
      obtain rfl : kind = .semicolon := hkind
      refine .sign hmem (.inl ?_)
      rw [Kind.ofSign?.eq_def] at hmem
      split at hmem <;> first | rfl | cases hmem

/-- What is munched before the last semicolon of a text is munched if the text goes
on. -/
theorem Lexeme.munch_of_append {c : Char} {cs : List Char} (hc : isGap c = false)
    (h : (munch c cs).2 = [] → (munch c cs).1.kind = .semicolon) (more : List Char) :
    munch c (cs ++ more) = ((munch c cs).1, (munch c cs).2 ++ more) := by
  have hstands := stands_munch hc (seam_nil (c :: cs))
  refine munch_append_of_stands ?_
  by_cases hnil : (munch c cs).2 = []
  · rw [hnil] at hstands ⊢
    exact hstands.append_semicolon (h hnil) more
  · exact hstands.append hnil more

/-- The tokens of a text that ends with a semicolon are followed by those of what
comes after it. -/
theorem bareTokens_append {cs : List Char}
    (h : ∀ t ∈ (bareTokens cs).getLast?, t.kind = .semicolon) (more : List Char) :
    bareTokens (cs ++ more) = bareTokens cs ++ bareTokens more := by
  induction hn : cs.length using Nat.strongRecOn generalizing cs with
  | ind n ih =>
      cases cs with
      | nil =>
          rw [bareTokens_nil]
          rfl
      | cons c cs =>
          cases hc : isGap c with
          | true =>
              rw [bareTokens_gap hc] at h
              rw [List.cons_append, bareTokens_gap hc, bareTokens_gap hc]
              exact ih _ (by simp [← hn]) h rfl
          | false =>
              have hlen := Lexeme.length_munch_lt c cs
              rw [bareTokens_munch hc, List.getLast?_cons] at h
              rw [List.cons_append, bareTokens_munch hc, bareTokens_munch hc,
                Lexeme.munch_of_append hc ?_ more]
              · refine congrArg _ (ih _ (by simp [← hn]; omega) (fun t ht => ?_) rfl)
                rw [Option.mem_def.mp ht] at h
                exact h t rfl
              · intro hnil
                rw [hnil, bareTokens_nil] at h
                exact h _ rfl

/-! ## Statements -/

namespace Grammar

variable {π : Type} {ts us : List (Token π)}

/-- Tokens the last of which is no semicolon. -/
def EndsOpen (ts : List (Token π)) : Prop :=
  ∀ t ∈ ts.getLast?, t.kind ≠ .semicolon

theorem endsOpen_nil : EndsOpen ([] : List (Token π)) := by
  simp [EndsOpen]

theorem EndsOpen.cons {t : Token π} {k : Kind} (ht : t.kind = k) (hk : k ≠ .semicolon)
    (h : EndsOpen ts) : EndsOpen (t :: ts) := by
  intro u hu
  rw [List.getLast?_cons] at hu
  obtain rfl := Option.some.inj hu
  cases hlast : ts.getLast? with
  | none => exact ht ▸ hk
  | some v => exact h v hlast

theorem EndsOpen.append (h : EndsOpen ts) (h' : EndsOpen us) : EndsOpen (ts ++ us) := by
  intro t ht
  rw [List.getLast?_append] at ht
  cases hlast : us.getLast? with
  | none =>
      rw [hlast] at ht
      exact h t ht
  | some v =>
      rw [hlast] at ht
      obtain rfl := Option.some.inj ht
      exact h' _ hlast

/-- The symbols that no tokens of statements are the last part of. -/
def Symbol.NoStatements : Symbol π → Prop
  | .statements => False
  | .separated item | .listOf item => item.NoStatements
  | .expr _ | .chain _ _ | .suffixes _ | .target | .name | .pair | .block | .alternative
  | .statement => True

/-- Only statements end with a semicolon. -/
theorem Derivation.endsOpen {s : Symbol π} {e : s.Tree} (d : Derivation s ts e)
    (hs : s.NoStatements) : EndsOpen ts := by
  induction d with
  | chainEnd | suffixEnd | noElse | empty => exact endsOpen_nil
  | ident ht | int ht | str ht | yes ht | no ht | targetName ht | name ht =>
      exact endsOpen_nil.cons ht (by decide)
  | operation _ ih | unaryEnd _ ih | choice _ ih | expr _ ih => exact ih trivial
  | one _ ih | items _ ih => exact ih hs
  | assign _ ht _ ihTarget ihValue =>
      exact (ihTarget trivial).append ((ihValue trivial).cons ht (by decide))
  | pair _ ht _ ihKey ihValue =>
      exact (ihKey trivial).append ((ihValue trivial).cons ht (by decide))
  | more _ ht _ ih ihRest => exact (ih hs).append ((ihRest hs).cons ht (by decide))
  | level _ _ ihFirst ihMore | postfixed _ _ ihFirst ihMore =>
      exact (ihFirst trivial).append (ihMore trivial)
  | @chainStep _ _ _ _ op _ _ _ ht _ _ _ ihOperand ihMore =>
      exact ((ihOperand trivial).append (ihMore trivial)).cons ht (by cases op <;> decide)
  | @unaryStep _ _ op _ ht _ ih => exact (ih trivial).cons ht (by cases op <;> decide)
  | callStep ho _ hc _ ihArgs ihMore | indexStep ho _ hc _ ihArgs ihMore =>
      exact ((ihArgs trivial).append ((ihMore trivial).cons hc (by decide))).cons ho (by decide)
  | group ho _ hc ih | array ho _ hc ih | hash ho _ hc ih | targetGroup ho _ hc ih =>
      exact ((ih trivial).append (endsOpen_nil.cons hc (by decide))).cons ho (by decide)
  | loop ht _ _ ihCondition ihBody =>
      exact ((ihCondition trivial).append (ihBody trivial)).cons ht (by decide)
  | func ht ho _ hc _ ihParams ihBody =>
      have hparams := (ihParams trivial).append ((ihBody trivial).cons hc (by decide))
      exact (hparams.cons ho (by decide)).cons ht (by decide)
  | conditional ht _ _ _ ihCondition ihConsequence ihAlternative =>
      have hblocks := (ihConsequence trivial).append (ihAlternative trivial)
      exact ((ihCondition trivial).append hblocks).cons ht (by decide)
  | elseBlock ht _ ih => exact (ih trivial).cons ht (by decide)
  | elseIf ht _ ih => exact (ih trivial).cons ht (by decide)
  | @block ts o c ss ho _ hc =>
      intro t hlast
      rw [← List.cons_append, List.getLast?_append, List.getLast?_singleton] at hlast
      obtain rfl := Option.some.inj hlast
      rw [hc]
      decide
  | @declare _ _ _ _ kind _ ht hu hv _ ih =>
      have hname := (ih trivial).cons hv (by decide)
      exact (hname.cons hu (by decide)).cons ht (by cases kind <;> decide)
  | ret ht _ ih => exact (ih trivial).cons ht (by decide)
  | noStatements | ended | unended => exact absurd hs id

/-- Statements up to a semicolon: each is ended by one, or is followed by others that do not
resume it. -/
inductive UpToSemicolon : List (Token π) → List (Stmt (Token π)) → Prop
  | nil : UpToSemicolon [] []
  | ended {ts us : List (Token π)} {t : Token π} {s : Stmt (Token π)} {ss : List (Stmt (Token π))}
      (first : Derivation .statement ts s) (ht : t.kind = .semicolon)
      (rest : UpToSemicolon us ss) : UpToSemicolon (ts ++ t :: us) (s :: ss)
  | unended {ts us : List (Token π)} {u : Token π} {s : Stmt (Token π)}
      {ss : List (Stmt (Token π))} (first : Derivation .statement ts s)
      (more : Derivation .statements (u :: us) ss) (hmore : ¬Resumes (u :: us))
      (rest : UpToSemicolon (u :: us) ss) : UpToSemicolon (ts ++ u :: us) (s :: ss)

theorem Derivation.upToSemicolon {ss : List (Stmt (Token π))} (d : Derivation .statements ts ss)
    (hlast : ∀ t ∈ ts.getLast?, t.kind = .semicolon) : UpToSemicolon ts ss := by
  induction ss generalizing ts with
  | nil =>
      cases d with
      | noStatements => exact .nil
  | cons s ss ih =>
      cases d with
      | @ended ts vs t _ _ first ht more =>
          refine .ended first ht (ih more fun u hu => ?_)
          rw [List.getLast?_append, List.getLast?_cons, Option.mem_def.mp hu] at hlast
          exact hlast u rfl
      | @unended ts vs _ _ first more hvs =>
          cases vs with
          | nil =>
              -- the statement itself would end with the semicolon
              obtain ⟨t, r, rfl, -⟩ := first.first rfl
              have hopen := first.endsOpen trivial
              rw [List.append_nil] at hlast
              have hu := List.getLast?_cons (a := t) (l := r)
              exact absurd (hlast _ hu) (hopen _ hu)
          | cons v vs =>
              rw [List.getLast?_append, List.getLast?_cons, Option.some_or,
                ← List.getLast?_cons] at hlast
              exact .unended first more hvs (ih more hlast)

/-- Statements up to a semicolon are followed by other statements. -/
theorem UpToSemicolon.append {ss rest : List (Stmt (Token π))} (h : UpToSemicolon ts ss)
    (d : Derivation .statements us rest) : Derived .statements (ts ++ us) (ss ++ rest) := by
  induction h with
  | nil => exact ⟨d⟩
  | ended first ht _ ih =>
      obtain ⟨d⟩ := ih
      rw [List.append_assoc]
      exact ⟨.ended first ht d⟩
  | unended first _ hmore _ ih =>
      obtain ⟨d⟩ := ih
      rw [List.append_assoc]
      exact ⟨.unended first d hmore⟩

end Grammar

/-! ## Programs -/

open Grammar

/-- A text ends with a semicolon, but for the gap at its end. -/
def EndsWithSemicolon (source : String) : Prop :=
  ∃ t ∈ (tokens source).getLast?, t.kind = .semicolon

theorem EndsWithSemicolon.bare {source : String} (h : EndsWithSemicolon source) :
    ∀ t ∈ (bareTokens source.toList).getLast?, t.kind = .semicolon := by
  obtain ⟨u, hu, hkind⟩ := h
  intro t ht
  rw [← tokens_bare, List.getLast?_map, Option.mem_def.mp hu] at ht
  obtain rfl := Option.some.inj ht
  exact hkind

/-- Two programs, of which the first ends with a semicolon, make up one program, with
the statements of both. -/
theorem parse_append {source more : String} {p q : Program (Token Position)}
    (hp : parse source = .ok p) (hlast : EndsWithSemicolon source) (hq : parse more = .ok q) :
    ∃ r, parse (source ++ more) = .ok r ∧
      r.erase.statements = p.erase.statements ++ q.erase.statements := by
  obtain ⟨d⟩ := derived_of_parse hp
  obtain ⟨d'⟩ := derived_of_parse hq
  have hboth := (d.upToSemicolon hlast.bare).append d'
  rw [← bareTokens_append hlast.bare, ← String.toList_append] at hboth
  obtain ⟨r, hr, hss⟩ := parse_of_derived hboth
  refine ⟨r, hr, ?_⟩
  rw [r.erase_statements, p.erase_statements, q.erase_statements, ← Stmt.erase_placeless, hss,
    List.map_append, Stmt.erase_placeless, Stmt.erase_placeless]

/-- A program that ends with a semicolon has a statement. -/
theorem EndsWithSemicolon.statements_ne_nil {source : String} {p : Program (Token Position)}
    (hp : parse source = .ok p) (hlast : EndsWithSemicolon source) : p.statements ≠ [] := by
  intro hnil
  obtain ⟨d⟩ := (statements_eq_iff _ _ _).mp ((parse_eq_ok_iff source p).mp hp)
  rw [hnil] at d
  obtain ⟨t, ht, -⟩ := hlast
  generalize tokens source = ts at d ht
  cases d
  cases ht

end MonkeyLang
