import MonkeyLang.Proofs.Grammar.Parse
import MonkeyLang.Proofs.Reading.Trail
import MonkeyLang.Proofs.Token.Tiling

/-!
# The log of errors

The errors that are found while reading are a log: what a call has found by the time that
it makes another one, followed by what that one finds, is the beginning of what it has
found at its end.  So nothing that was found is ever lost, and a parser that builds nothing
leaves its mark in the list of errors of the whole text.

The tokens of a text are in the order of where they begin, and so are the errors on them.
-/

namespace MonkeyLang

namespace Reply

variable {π α β : Type} {n m : Nat} {es : List (ParseError π)}

theorem errors_prefix_andThen {x : Reply π α n} (h : n ≤ m)
    (f : α → (rest : List (Token π)) → rest.length ≤ n → Reply π β m) :
    x.errors <+: (x.andThen h f).errors := by
  obtain ⟨result, rest, errors, hle⟩ := x
  cases result with
  | none => exact List.prefix_refl _
  | some a => exact List.prefix_append _ _

theorem append_prefix_andThen {x : Reply π α n} {a : α} {rest : List (Token π)} {h : n ≤ m}
    {f : α → (rest : List (Token π)) → rest.length ≤ n → Reply π β m} (hx : x.Yields a rest)
    (hf : ∀ hr, es <+: (f a rest hr).errors) : x.errors ++ es <+: (x.andThen h f).errors := by
  obtain ⟨result, rest', errors, hle⟩ := x
  obtain ⟨rfl, rfl⟩ := hx
  exact (List.prefix_append_right_inj _).mpr (hf hle)

theorem errors_recover (x : Reply π α n) (skip : List (Token π) → List (Token π))
    (h : ∀ ts, (skip ts).length ≤ ts.length) : (x.recover skip h).errors = x.errors := by
  obtain ⟨result, rest, errors, hle⟩ := x
  cases result <;> rfl

theorem Yields.recover {x : Reply π α n} {a : α} {rest : List (Token π)} (hx : x.Yields a rest)
    (skip : List (Token π) → List (Token π)) (h : ∀ ts, (skip ts).length ≤ ts.length) :
    (x.recover skip h).Yields a rest := by
  obtain ⟨result, rest', errors, hle⟩ := x
  obtain ⟨rfl, rfl⟩ := hx
  exact ⟨rfl, rfl⟩

end Reply

namespace Reading

variable {π : Type} {endPos : π}

theorem expect_eq {want : Kind} {t : Token π} (r : List (Token π)) (ht : t.kind = want) :
    expect endPos want (t :: r) = .ok t r (Nat.le_succ _) := by
  rw [expect, if_pos ht]

namespace Call

variable {c d : Call π} {found : List (ParseError π)}

/-- What is found before a call and what the call finds are, in this order, the beginning
of what is found. -/
theorem Makes.found_first (h : c.Makes endPos found d) :
    found ++ (d.answer endPos).errors <+: (c.answer endPos).errors := by
  cases h with
  | operand =>
      simp only [answer, Reading.expr]
      exact Reply.errors_prefix_andThen _ _
  | climb h =>
      simp only [answer, Reading.expr]
      exact Reply.append_prefix_andThen h fun _ => List.prefix_refl _
  | unary ht =>
      rcases ht with ht | ht <;> simp only [answer, Reading.operand, ht] <;>
        exact List.prefix_refl _
  | conditional ht | elements ht | members ht =>
      simp only [answer, Reading.operand, ht]
      exact List.prefix_refl _
  | group ht | loopCondition ht =>
      simp only [answer, Reading.operand, ht]
      exact Reply.errors_prefix_andThen _ _
  | loopBody ht hc hbrace =>
      simp only [answer, Reading.operand, ht]
      refine Reply.append_prefix_andThen hc fun _ => ?_
      rw [expect_eq _ hbrace]
      exact List.prefix_refl _
  | params ht hparen =>
      simp only [answer, Reading.operand, ht, expect_eq _ hparen]
      exact Reply.errors_prefix_andThen _ _
  | funcBody ht hparen hps hbrace =>
      simp only [answer, Reading.operand, ht, expect_eq _ hparen]
      refine Reply.append_prefix_andThen hps fun _ => ?_
      rw [expect_eq _ hbrace]
      exact List.prefix_refl _
  | extend hc hp =>
      simp only [answer, Reading.climb, hc, if_pos hp]
      exact Reply.errors_prefix_andThen _ _
  | climbOn hc hp h =>
      simp only [answer, Reading.climb, hc, if_pos hp]
      exact Reply.append_prefix_andThen h fun _ => List.prefix_refl _
  | rightOperand | assigned | arguments =>
      simp only [answer, Reading.extend]
      exact List.prefix_refl _
  | dropped h =>
      simp only [answer, Reading.extend]
      exact List.prefix_refl _
  | index =>
      simp only [answer, Reading.extend]
      exact Reply.errors_prefix_andThen _ _
  | condition =>
      simp only [answer, Reading.conditional]
      exact Reply.errors_prefix_andThen _ _
  | consequence hc hbrace =>
      simp only [answer, Reading.conditional]
      refine Reply.append_prefix_andThen hc fun _ => ?_
      rw [expect_eq _ hbrace]
      exact Reply.errors_prefix_andThen _ _
  | alternative hc hbrace hb =>
      simp only [answer, Reading.conditional, List.append_assoc]
      refine Reply.append_prefix_andThen hc fun _ => ?_
      rw [expect_eq _ hbrace]
      exact Reply.append_prefix_andThen hb fun _ => List.prefix_refl _
  | elseIf ht hu =>
      simp only [answer, Reading.alternative, if_pos ht, if_pos hu]
      exact List.prefix_refl _
  | elseBlock ht hu =>
      simp only [answer, Reading.alternative, ht, hu]
      exact List.prefix_refl _
  | blockStatements =>
      simp only [answer, Reading.block]
      exact List.prefix_refl _
  | blockStatement ht =>
      simp only [answer, Reading.blockStatements, if_neg ht]
      exact List.prefix_append _ _
  | laterBlockStatements ht h =>
      subst h
      simp only [answer, Reading.blockStatements, if_neg ht]
      exact List.prefix_refl _
  | declaration ht =>
      rcases ht with ⟨ht, rfl⟩ | ⟨ht, rfl⟩ <;> simp only [answer, Reading.statement, ht] <;>
        exact List.prefix_refl _
  | returned ht =>
      simp only [answer, Reading.statement, ht]
      exact Reply.errors_prefix_andThen _ _
  | expression hvar hval hreturn =>
      simp only [answer, Reading.statement]
      exact Reply.errors_prefix_andThen _ _
  | skipStatement =>
      simp only [answer, Reading.declaration, List.append_nil]
      rw [← Reply.errors_recover]
      exact Reply.errors_prefix_andThen _ _
  | declared h =>
      simp only [answer, Reading.declaration]
      rw [← Reply.errors_recover]
      refine Reply.append_prefix_andThen (h.recover _ _) fun _ => ?_
      exact Reply.errors_prefix_andThen _ _
  | skipToken hsemicolon hbrace => exact List.prefix_refl _
  | @paramItems ts h =>
      cases ts with
      | nil => exact List.prefix_refl _
      | cons t r =>
          simp only [answer, Reading.params, if_neg (h t rfl)]
          exact List.prefix_refl _
  | laterParams ht hc =>
      simp only [answer, Reading.paramItems, if_pos ht, if_pos hc]
      exact List.prefix_refl _
  | @exprItems _ ts h =>
      cases ts with
      | nil =>
          simp only [answer, Reading.exprList]
          exact List.prefix_refl _
      | cons t r =>
          simp only [answer, Reading.exprList, if_neg (h t rfl)]
          exact List.prefix_refl _
  | element =>
      simp only [answer, Reading.exprItems]
      exact Reply.errors_prefix_andThen _ _
  | moreExprItems he =>
      simp only [answer, Reading.exprItems]
      exact Reply.append_prefix_andThen he fun _ => List.prefix_refl _
  | laterExprItems ht =>
      simp only [answer, Reading.moreExprItems, if_pos ht]
      exact List.prefix_refl _
  | @pairItems ts h =>
      cases ts with
      | nil =>
          simp only [answer, Reading.pairs]
          exact List.prefix_refl _
      | cons t r =>
          simp only [answer, Reading.pairs, if_neg (h t rfl)]
          exact List.prefix_refl _
  | key =>
      simp only [answer, Reading.pairItems]
      exact Reply.errors_prefix_andThen _ _
  | value hk hcolon =>
      simp only [answer, Reading.pairItems]
      refine Reply.append_prefix_andThen hk fun _ => ?_
      rw [expect_eq _ hcolon]
      exact Reply.errors_prefix_andThen _ _
  | morePairItems hk hcolon hv =>
      simp only [answer, Reading.pairItems, List.append_assoc]
      refine Reply.append_prefix_andThen hk fun _ => ?_
      rw [expect_eq _ hcolon]
      exact Reply.append_prefix_andThen hv fun _ => List.prefix_refl _
  | laterPairItems ht =>
      simp only [answer, Reading.morePairItems, ht]
      exact List.prefix_refl _
  | statement =>
      simp only [answer, Reading.statements]
      exact List.prefix_append _ _
  | laterStatements h =>
      subst h
      simp only [answer, Reading.statements]
      exact List.prefix_refl _

/-- While the call `c` is under way the call `d` is made, when the errors of a log have been
found. -/
inductive Reaches (endPos : π) (c : Call π) : List (ParseError π) → Call π → Prop
  | self : Reaches endPos c [] c
  | call {log found : List (ParseError π)} {d e : Call π} (h : Reaches endPos c log d)
      (hcall : d.Makes endPos found e) : Reaches endPos c (log ++ found) e

variable {log : List (ParseError π)}

theorem Reaches.found_first (h : c.Reaches endPos log d) :
    log ++ (d.answer endPos).errors <+: (c.answer endPos).errors := by
  induction h with
  | self => exact List.prefix_refl _
  | call _ hcall ih =>
      rw [List.append_assoc]
      exact ((List.prefix_append_right_inj _).mpr hcall.found_first).trans ih

theorem Reaches.mem_errors (h : c.Reaches endPos log d) {e : ParseError π}
    (he : e ∈ (d.answer endPos).errors) : e ∈ (c.answer endPos).errors :=
  h.found_first.subset (List.mem_append_right _ he)

end Call

/-! ## Where errors sit -/

namespace Trail

variable {ts us : List (Token π)} {es : List (ParseError π)}

/-- The places of some tokens and of their end. -/
def places (endPos : π) (ts : List (Token π)) : List π :=
  ts.map Token.pos ++ [endPos]

theorem places_eq_cons (endPos : π) (ts : List (Token π)) :
    ∃ ps, places endPos ts = placeOf endPos ts :: ps := by
  cases ts with
  | nil => exact ⟨[], rfl⟩
  | cons t ts => exact ⟨places endPos ts, rfl⟩

theorem pos_mem_places (h : Trail endPos ts us es) : ∀ e ∈ es, e.pos ∈ places endPos ts := by
  induction h with
  | done => exact List.forall_mem_nil _
  | pass _ ih => exact fun e he => List.mem_cons_of_mem _ (ih e he)
  | @note _ ts _ _ _ ih =>
      refine List.forall_mem_cons.mpr ⟨?_, ih⟩
      obtain ⟨ps, hps⟩ := places_eq_cons endPos ts
      rw [hps]
      exact List.mem_cons_self

/-- On tokens in order the errors are in order, too. -/
theorem pairwise_pos {R : π → π → Prop} (hrefl : ∀ p, R p p) (h : Trail endPos ts us es)
    (hsorted : (places endPos ts).Pairwise R) : es.Pairwise fun e f => R e.pos f.pos := by
  induction h with
  | done => exact .nil
  | pass _ ih => exact ih (List.pairwise_cons.mp hsorted).2
  | @note _ ts _ _ h ih =>
      refine List.pairwise_cons.mpr ⟨fun e he => ?_, ih hsorted⟩
      have hmem := h.pos_mem_places e he
      obtain ⟨ps, hps⟩ := places_eq_cons endPos ts
      rw [hps] at hsorted hmem
      rcases List.mem_cons.mp hmem with heq | hmem
      · rw [heq]
        exact hrefl _
      · exact (List.pairwise_cons.mp hsorted).1 _ hmem

end Trail

end Reading

/-! ## The order of tokens -/

theorem Place.offset_le_after (p : Place) (cs : List Char) : p.offset ≤ (p.after cs).offset := by
  rw [Place.offset_after]
  exact Nat.le_add_right _ _

namespace Cursor

theorem next_starts (k : Cursor) :
    k.place.offset ≤ k.next.1.pos.start ∧ k.next.1.pos.start ≤ k.next.2.place.offset := by
  obtain ⟨p, cs⟩ := k
  rw [next_dropWhile]
  generalize hplace : p.after (cs.takeWhile isGap) = q
  have hgap : p.offset ≤ q.offset := hplace ▸ p.offset_le_after _
  have hhead := List.head?_dropWhile_not isGap cs
  cases hcs : cs.dropWhile isGap with
  | nil => exact ⟨hgap, Nat.le_refl _⟩
  | cons c cs =>
      rw [hcs] at hhead
      have hc : isGap c = false := hhead
      rw [next, nextFrom, hc, if_neg Bool.false_ne_true]
      exact ⟨hgap, q.offset_le_after _⟩

/-- The tokens from a cursor on, with the end, begin one after the other, and not before the
cursor. -/
theorem tokens_in_order (k : Cursor) :
    ((k.tokens ++ [k.atEnd.place.endToken]).Pairwise fun t u => t.pos.start ≤ u.pos.start) ∧
      ∀ t ∈ k.tokens ++ [k.atEnd.place.endToken], k.place.offset ≤ t.pos.start := by
  induction k using tokens.induct with
  | case1 k hend =>
      rw [tokens, if_pos hend, List.nil_append]
      refine ⟨List.pairwise_singleton _ _, fun t ht => ?_⟩
      obtain rfl := List.mem_singleton.mp ht
      exact k.place.offset_le_after _
  | case2 k hkind ih =>
      obtain ⟨hsorted, hstart⟩ := ih
      obtain ⟨hfirst, hnext⟩ := k.next_starts
      have hend : k.next.2.atEnd = k.atEnd := by
        rcases k.next_cases with hend | ⟨-, hend⟩
        · rw [hend] at hkind
          exact absurd rfl hkind
        · exact hend
      rw [hend] at hsorted hstart
      rw [tokens, if_neg hkind, List.cons_append]
      refine ⟨List.pairwise_cons.mpr ⟨fun t ht => ?_, hsorted⟩, List.forall_mem_cons.mpr
        ⟨hfirst, fun t ht => ?_⟩⟩
      · exact Nat.le_trans hnext (hstart t ht)
      · exact Nat.le_trans (Nat.le_trans hfirst hnext) (hstart t ht)

end Cursor

theorem tokenize_in_order (source : String) :
    (tokenize source).Pairwise fun t u => t.pos.start ≤ u.pos.start :=
  (Cursor.tokens_in_order (Cursor.ofText source)).1

open Reading Grammar

/-- The errors of a text are a faithful log of reading it.  Each sits on a token of the text
or on its end, and they are in the order of where these begin.  What has been found when a
call is made and what the call finds are, in this order, the beginning of the list; a call
that builds nothing finds an error, and so does every call on the way to a block that the
text does not close.  So if there is no error, every call has built something, and the
program is derived from all of the tokens. -/
theorem errors_are_logged (source : String) :
    (∀ e ∈ (parseText source).errors, ∃ t ∈ tokenize source, e.pos = t.pos) ∧
    ((parseText source).errors.Pairwise fun e f => e.pos.start ≤ f.pos.start) ∧
    (∀ log c, Call.Reaches (endToken source).pos (.statements (tokens source)) log c →
      log ++ (c.answer (endToken source).pos).errors <+: (parseText source).errors) ∧
    (∀ c : Call Position, (c.answer (endToken source).pos).result = none →
      (c.answer (endToken source).pos).errors ≠ []) ∧
    (∀ (c : Call Position) log, c.Reaches (endToken source).pos log (.blockStatements []) →
      ⟨.unclosedBlock, (endToken source).pos⟩ ∈ (c.answer (endToken source).pos).errors) ∧
    ∀ p, parse source = .ok p →
      (∀ log c, Call.Reaches (endToken source).pos (.statements (tokens source)) log c →
        (c.answer (endToken source).pos).result ≠ none ∧
        (c.answer (endToken source).pos).errors = []) ∧
      Nonempty (Derivation .statements (tokens source) p.statements) := by
  generalize hend : (endToken source).pos = endPos
  have hread : parseText source = parseTokens endPos (tokens source) := by rw [parseText, hend]
  have htrail := (Call.recorded endPos (.statements (tokens source))).trail
  have hplaces : Trail.places endPos (tokens source) = (tokenize source).map Token.pos := by
    rw [tokenize, List.map_append, ← hend]
    rfl
  rw [hread]
  refine ⟨fun e he => ?_, ?_, fun log c h => h.found_first,
    fun c => (Call.recorded endPos c).error_of_none, fun c log h => ?_, fun p hp => ?_⟩
  · have hmem := htrail.pos_mem_places e he
    obtain ⟨t, ht, hpos⟩ := List.mem_map.mp (hplaces ▸ hmem)
    exact ⟨t, ht, hpos.symm⟩
  · have hsorted : ((tokenize source).map Token.pos).Pairwise fun p q => p.start ≤ q.start :=
      List.pairwise_map.mpr (tokenize_in_order source)
    exact htrail.pairwise_pos (fun p => Nat.le_refl p.start) (hplaces ▸ hsorted)
  · refine h.mem_errors ?_
    simp only [Call.answer, Reading.blockStatements]
    exact List.mem_singleton_self _
  · have hstatements := (parse_eq_ok_iff source p).mp hp
    refine ⟨fun log c h => ?_, (statements_eq_iff _ _ _).mp hstatements⟩
    have herrors : (c.answer endPos).errors = [] := by
      have hfirst := h.found_first
      rw [hend] at hstatements
      rw [show (Call.answer endPos (.statements (tokens source))).errors = [] from
        congrArg Prod.snd hstatements] at hfirst
      exact (List.append_eq_nil_iff.mp (List.prefix_nil.mp hfirst)).2
    exact ⟨fun h => (Call.recorded endPos c).error_of_none h herrors, herrors⟩

end MonkeyLang
