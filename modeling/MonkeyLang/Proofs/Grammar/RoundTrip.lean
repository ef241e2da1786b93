import MonkeyLang.Proofs.Grammar.Parse
import MonkeyLang.Proofs.Grammar.Written
import MonkeyLang.Proofs.Reading.Built
import MonkeyLang.Proofs.Reading.Natural

/-!
# Rendering and parsing

The text of a program that can be written down is parsed as that program again,
but for annotations.  This goes for all that is built of any text, even if the
text is not a program.
-/

namespace MonkeyLang

open Grammar Reading

variable {α : Type}

/-- A tree that was parsed, with tokens of which the places are left out. -/
def Stmt.placeless (s : Stmt (Token Position)) : Stmt (Token Unit) :=
  s.map (Token.map fun _ => ())

theorem Stmt.erase_placeless (ss : List (Stmt (Token Position))) :
    (ss.map Stmt.placeless).map Stmt.erase = ss.map Stmt.erase := by
  rw [List.map_map]
  exact List.map_congr_left fun s _ => s.map_map (Token.map fun _ => ()) fun _ => ()

theorem Program.erase_statements (p : Program α) :
    p.erase.statements = p.statements.map Stmt.erase :=
  Stmt.mapList_eq _ _

/-- Statements that tokens are read as when their places are left out. -/
theorem statements_of_bare (endPos : Position) {ts : List (Token Position)}
    {ss : List (Stmt (Token Unit))}
    (h : statements () (ts.map (Token.map fun _ => ())) = (ss, [])) :
    (statements endPos ts).1.map Stmt.placeless = ss ∧ (statements endPos ts).2 = [] := by
  have hmap := statements_map (fun _ => ()) endPos ts
  obtain ⟨hss, herrors⟩ := Prod.mk.inj (hmap.symm.trans h)
  exact ⟨hss, List.map_eq_nil_iff.mp herrors⟩

theorem Program.erase_eq_of_map {p : Program α} {q : Program (Token Position)}
    {ss : List (Stmt (Token Unit))} (hss : ss.map Stmt.erase = p.statements.map Stmt.erase)
    (hq : q.statements.map Stmt.placeless = ss) : q.erase = p.erase := by
  have hstmts : q.erase.statements = p.erase.statements := by
    rw [q.erase_statements, p.erase_statements, ← hss, ← hq, Stmt.erase_placeless]
  exact congrArg Program.mk hstmts

/-- The statements of a program are derived from its tokens when places are left
out. -/
theorem derived_of_parse {source : String} {p : Program (Token Position)}
    (hp : parse source = .ok p) :
    Derived .statements (bareTokens source.toList) (p.statements.map Stmt.placeless) := by
  have hread := (parse_eq_ok_iff source p).mp hp
  have hbare := Reading.statements_map (fun _ => ()) (endToken source).pos (tokens source)
  rw [hread] at hbare
  rw [← tokens_bare]
  exact (statements_eq_iff () _ _).mp hbare

theorem parse_of_derived {source : String} {ss : List (Stmt (Token Unit))}
    (h : Derived .statements (bareTokens source.toList) ss) :
    ∃ p, parse source = .ok p ∧ p.statements.map Stmt.placeless = ss := by
  rw [← tokens_bare] at h
  obtain ⟨hss, herrors⟩ :=
    statements_of_bare (endToken source).pos ((statements_eq_iff () _ _).mpr h)
  refine ⟨⟨(Reading.statements (endToken source).pos (tokens source)).1⟩, ?_, hss⟩
  rw [parse_eq_ok_iff, ← herrors]

/-- A program that can be written down is read back from its text. -/
theorem Program.parse_render (p : Program α) (h : p.WellFormed) :
    ∃ q, parse p.render = .ok q ∧ q.erase = p.erase := by
  obtain ⟨ts, ss, hs, d, hss⟩ := Program.written p h
  rw [← hs.bareTokens_eq] at d
  obtain ⟨q, hq, hstmts⟩ := parse_of_derived d
  exact ⟨q, hq, Program.erase_eq_of_map hss hstmts⟩

/-- The text of a program is parsed as the same program, and so has the same
text again: whatever text the program was built of, and if it was built by hand
as long as it can be written down. -/
theorem render_parses_back :
    (∀ source : String, ∃ q, parse (parseText source).program.render = .ok q ∧
      q.erase = (parseText source).program.erase ∧
      q.render = (parseText source).program.render) ∧
    ∀ {α : Type} (p : Program α), p.WellFormed →
      ∃ q, parse p.render = .ok q ∧ q.erase = p.erase ∧ q.render = p.render := by
  have back : ∀ {α : Type} (p : Program α), p.WellFormed →
      ∃ q, parse p.render = .ok q ∧ q.erase = p.erase ∧ q.render = p.render := by
    intro α p h
    obtain ⟨q, hq, heq⟩ := p.parse_render h
    exact ⟨q, hq, heq, Program.render_eq_of_erase heq⟩
  exact ⟨fun source => back _ (parseText_wellFormed source), back⟩

/-- The call of a conditional, whose condition is a loop, with a hash and a
function as its arguments. -/
def nestedCall : Program Unit :=
  let x : Expr Unit := .ident ⟨(), "x"⟩
  let loop : Expr Unit := .loop () x (.mk () [])
  let cond : Expr Unit := .cond () loop (.mk () [.ret () x]) (some (.mk () [.expr () x]))
  let hash : Expr Unit := .hash () [(.str () "k", .int () 7)]
  ⟨[.expr () (.call () cond [hash, .func () [⟨(), "x"⟩] (.mk () [])])]⟩

/-- A program built by hand that is read back. -/
theorem nestedCall_parses_back :
    nestedCall.WellFormed ∧ ∃ q, parse nestedCall.render = .ok q ∧ q.erase = nestedCall.erase ∧
      q.render = nestedCall.render := by
  have hletter : "x".toList.all isLetter = true := by decide
  have hx : IsName "x" := ⟨by decide, List.all_eq_true.mp hletter, by decide⟩
  have hk : '"' ∉ "k".toList := by decide
  have hn : (0 : Int64) ≤ 7 := by decide
  have hparams : ∀ y ∈ [(⟨(), "x"⟩ : Ident Unit)], IsName y.name := by
    intro y hy
    obtain rfl := List.mem_singleton.mp hy
    exact hx
  have h : nestedCall.WellFormed :=
    ⟨⟨⟨⟨hx, trivial⟩, ⟨hx, trivial⟩, hx, trivial⟩, ⟨⟨hk, hn⟩, trivial⟩, ⟨hparams, trivial⟩, trivial⟩,
      trivial⟩
  exact ⟨h, render_parses_back.2 nestedCall h⟩

end MonkeyLang
