import Mathlib.Data.List.Forall2
import MonkeyLang.Host.Memory
import MonkeyLang.Proofs.Grammar.Joined
import MonkeyLang.Proofs.Run.Job
import MonkeyLang.Proofs.Run.Rendering

/-!
# Running a text in pieces

A text that is made of pieces, each of them a program that ends with a semicolon, is
run as the pieces are run in turn: each in the scope, the heap and on the host that
the one before it has left, up to the first that is broken off by an error or a
return.

The pieces and the whole are compared as statements without annotations, since a token
has another place in the whole than in its piece.  There a run of statements is a run
of the first of them and then of the others, and this is the step of the induction.
-/

namespace MonkeyLang

open RunOn

variable {α S : Type} [Host (StateM S)]

section

variable [Digest]

namespace Run

/-- What comes out of a program with the given outcome of its statements. -/
def concluded : Except Interrupt Value → Except Interrupt Value
  | .ok v => .ok v
  | .error i => i.concluded

theorem stmts_erase (n : Nat) (scope : ScopeId) (xs : List (Stmt α)) (v : Value) (h : Heap α)
    (s : S) : (stmts n scope (xs.map Stmt.erase) v).ending h.erase s =
      ((stmts n scope xs v).ending h s).map Heap.erase := by
  have hmirrors := (naturalUpTo (S := S) Heap.erase_along n).stmts scope xs v h s
  rw [Stmt.mapList_eq] at hmirrors
  exact hmirrors

end Run

/-! ## Statements in turn -/

namespace Job

variable {scope : ScopeId} {x : Stmt α} {xs ys : List (Stmt α)} {v : Value}
  {h h' : Heap α} {s s' : S} {o : Except Interrupt Value}

theorem ends_stmts_nil_iff :
    Ends ⟨.stmts scope [] v, h, s⟩ o h' s' ↔ .ok v = o ∧ h = h' ∧ s = s' := by
  have hends : Ends (S := S) ⟨.stmts scope [] v, h, s⟩ (.ok v) h s := .of_ending (n := 1) rfl
  constructor
  · exact hends.unique
  · rintro ⟨rfl, rfl, rfl⟩
    exact hends

theorem ends_stmts_cons_iff :
    Ends ⟨.stmts scope (x :: xs) v, h, s⟩ o h' s' ↔
      (∃ i, o = .error i ∧ Ends ⟨.stmt scope x, h, s⟩ (.error i) h' s') ∨
      ∃ w h₁ s₁, Ends ⟨.stmt scope x, h, s⟩ (.ok w) h₁ s₁ ∧
        Ends ⟨.stmts scope xs w, h₁, s₁⟩ o h' s' := by
  constructor
  · intro hends
    obtain ⟨n, hn⟩ := hends.exists_succ
    change ((Run.stmt n scope x) >>= fun w => Run.stmts n scope xs w).ending h s = _ at hn
    rw [ending_bind] at hn
    cases hx : (Run.stmt n scope x).ending h s with
    | mk outcome h₁ s₁ =>
        rw [hx] at hn
        match outcome with
        | none => cases congrArg Ending.outcome hn
        | some (.error i) =>
            cases hn
            exact .inl ⟨i, rfl, .of_ending hx⟩
        | some (.ok w) => exact .inr ⟨w, h₁, s₁, .of_ending hx, .of_ending hn⟩
  · rintro (⟨i, rfl, hx⟩ | ⟨w, h₁, s₁, hx, hxs⟩)
    · obtain ⟨n, hn⟩ := hx.exists
      exact .of_ending (n := n + 1) (ending_bind_of_error hn)
    · obtain ⟨n, hx, hxs⟩ := (hx.and hxs).exists
      exact .of_ending (n := n + 1) ((ending_bind_of_ok hx).trans hxs)

/-- Statements are run after others if these end with a value. -/
theorem ends_stmts_append_iff :
    Ends ⟨.stmts scope (xs ++ ys) v, h, s⟩ o h' s' ↔
      (∃ i, o = .error i ∧ Ends ⟨.stmts scope xs v, h, s⟩ (.error i) h' s') ∨
      ∃ w h₁ s₁, Ends ⟨.stmts scope xs v, h, s⟩ (.ok w) h₁ s₁ ∧
        Ends ⟨.stmts scope ys w, h₁, s₁⟩ o h' s' := by
  induction xs generalizing v h s with
  | nil =>
      simp only [List.nil_append, ends_stmts_nil_iff]
      constructor
      · exact fun hends => .inr ⟨v, h, s, ⟨rfl, rfl, rfl⟩, hends⟩
      · rintro (⟨i, -, hi, -⟩ | ⟨w, h₁, s₁, ⟨hw, rfl, rfl⟩, hends⟩)
        · cases hi
        · cases hw
          exact hends
  | cons x xs ih =>
      rw [List.cons_append, ends_stmts_cons_iff]
      constructor
      · rintro (⟨i, rfl, hx⟩ | ⟨w, h₁, s₁, hx, hends⟩)
        · exact .inl ⟨i, rfl, ends_stmts_cons_iff.mpr (.inl ⟨i, rfl, hx⟩)⟩
        · rcases ih.mp hends with ⟨i, rfl, hxs⟩ | ⟨u, h₂, s₂, hxs, hys⟩
          · exact .inl ⟨i, rfl, ends_stmts_cons_iff.mpr (.inr ⟨w, h₁, s₁, hx, hxs⟩)⟩
          · exact .inr ⟨u, h₂, s₂, ends_stmts_cons_iff.mpr (.inr ⟨w, h₁, s₁, hx, hxs⟩), hys⟩
      · rintro (⟨i, rfl, hends⟩ | ⟨u, h₂, s₂, hends, hys⟩)
        · rcases ends_stmts_cons_iff.mp hends with ⟨j, hj, hx⟩ | ⟨w, h₁, s₁, hx, hxs⟩
          · exact .inl ⟨i, rfl, hj ▸ hx⟩
          · exact .inr ⟨w, h₁, s₁, hx, ih.mpr (.inl ⟨i, rfl, hxs⟩)⟩
        · rcases ends_stmts_cons_iff.mp hends with ⟨j, hj, hx⟩ | ⟨w, h₁, s₁, hx, hxs⟩
          · cases hj
          · exact .inr ⟨w, h₁, s₁, hx, ih.mpr (.inr ⟨u, h₂, s₂, hxs, hys⟩)⟩

/-- The value before the first statement does not matter. -/
theorem Ends.before (hends : Ends ⟨.stmts scope xs v, h, s⟩ o h' s') (hxs : xs ≠ []) (w : Value) :
    Ends ⟨.stmts scope xs w, h, s⟩ o h' s' := by
  obtain ⟨x, xs, rfl⟩ := List.exists_cons_of_ne_nil hxs
  exact ends_stmts_cons_iff.mpr (ends_stmts_cons_iff.mp hends)

/-- Statements end as they do without annotations, but for those in the heap. -/
theorem ends_erase_iff {h' : Heap} :
    Ends ⟨.stmts scope (xs.map Stmt.erase) v, h.erase, s⟩ o h' s' ↔
      ∃ k : Heap α, Ends ⟨.stmts scope xs v, h, s⟩ o k s' ∧ k.erase = h' := by
  constructor
  · intro hends
    obtain ⟨n, hn⟩ := hends.exists
    change (Run.stmts n scope (xs.map Stmt.erase) v).ending h.erase s = _ at hn
    rw [Run.stmts_erase] at hn
    cases hk : (Run.stmts n scope xs v).ending h s with
    | mk outcome k s₁ =>
        rw [hk] at hn
        obtain ⟨rfl, hheap, rfl⟩ := Ending.mk.inj hn
        exact ⟨k, .of_ending hk, hheap⟩
  · rintro ⟨k, hends, rfl⟩
    obtain ⟨n, hn⟩ := hends.exists
    refine .of_ending (n := n) ((Run.stmts_erase n scope xs v h s).trans ?_)
    change (Run.stmts n scope xs v).ending h s = _ at hn
    rw [hn]
    rfl

end Job

/-! ## Texts in turn -/

/-- Where the run of a text ends: with errors in the text, or with a value. -/
abbrev TextEnding (S : Type) : Type :=
  Ending (Heap (Token Position)) S (Except (List (ParseError Position)) Value)

section

variable {scope : ScopeId} {source : String} {p : Program (Token Position)}
  {h : Heap (Token Position)} {s : S} {e : TextEnding S}

/-- Running a program is running its statements, whatever becomes of interrupts. -/
theorem ending_annotatedText (hp : parse source = .ok p) (n : Nat) :
    (Run.annotatedText n scope source).ending h s =
      ⟨((Run.stmts n scope p.statements .null).ending h s).outcome.map fun o =>
          (Run.concluded o).map .ok,
        ((Run.stmts n scope p.statements .null).ending h s).state,
        ((Run.stmts n scope p.statements .null).ending h s).host⟩ := by
  rw [Run.annotatedText, hp]
  dsimp only
  rw [ending_bind, Run.program, Run.reported, ending_tryCatch, Run.returned, ending_tryCatch]
  obtain ⟨_ | (_ | _ | _) | v, h', s'⟩ := (Run.stmts n scope p.statements .null).ending h s <;> rfl

/-- A text ends as its statements do. -/
theorem endsIn_annotatedText_iff (hp : parse source = .ok p) :
    EndsIn (Run.annotatedText · scope source) h s e ↔
      ∃ o, Job.Ends ⟨.stmts scope p.statements .null, h, s⟩ o e.state e.host ∧
        e.outcome = some ((Run.concluded o).map .ok) := by
  constructor
  · rintro ⟨hsome, n, rfl⟩
    dsimp only at hsome ⊢
    rw [ending_annotatedText hp] at hsome ⊢
    cases hn : (Run.stmts n scope p.statements .null).ending h s with
    | mk outcome h' s' =>
        rw [hn] at hsome
        cases outcome with
        | none => exact absurd rfl hsome
        | some o => exact ⟨o, .of_ending hn, rfl⟩
  · obtain ⟨outcome, h', s'⟩ := e
    rintro ⟨o, hends, houtcome⟩
    obtain ⟨n, hn⟩ := hends.exists
    obtain rfl : outcome = _ := houtcome
    refine ⟨Option.some_ne_none _, n, ?_⟩
    change (Run.stmts n scope p.statements .null).ending h s = _ at hn
    dsimp only
    rw [ending_annotatedText hp, hn]
    rfl

end

/-- The statements of a text are broken off: by an error, by a return at the top, or by
the end of the process. -/
def BreaksOff (scope : ScopeId) (source : String) (h : Heap (Token Position)) (s : S) : Prop :=
  ∃ p i h' s', parse source = .ok p ∧
    Job.Ends ⟨.stmts scope p.statements .null, h, s⟩ (.error i) h' s'

/-- Texts are run in turn, beginning where another run has ended, up to the first that
is broken off; the last of those that are run tells the result. -/
inductive InTurn (scope : ScopeId) : List String → TextEnding S → TextEnding S → Prop
  | done {e : TextEnding S} : InTurn scope [] e e
  | stop {piece : String} {pieces : List String} {e e' : TextEnding S}
      (hrun : EndsIn (Run.annotatedText · scope piece) e.state e.host e')
      (hbreak : BreaksOff scope piece e.state e.host) : InTurn scope (piece :: pieces) e e'
  | next {piece : String} {pieces : List String} {e e' e'' : TextEnding S}
      (hrun : EndsIn (Run.annotatedText · scope piece) e.state e.host e')
      (hgoes : ¬ BreaksOff scope piece e.state e.host) (hrest : InTurn scope pieces e' e'') :
      InTurn scope (piece :: pieces) e e''

section

variable {scope : ScopeId} {pieces : List String} {ps : List (Program (Token Position))}
  {h : Heap (Token Position)} {s : S} {v : Value}

omit [Digest] [Host (StateM S)] in
theorem exists_programs (hpieces : ∀ piece ∈ pieces, ∃ p, parse piece = .ok p) :
    ∃ ps, List.Forall₂ (fun piece p => parse piece = .ok p) pieces ps := by
  induction pieces with
  | nil => exact ⟨[], .nil⟩
  | cons piece pieces ih =>
      obtain ⟨⟨p, hp⟩, hpieces⟩ := List.forall_mem_cons.mp hpieces
      obtain ⟨ps, hps⟩ := ih hpieces
      exact ⟨p :: ps, .cons hp hps⟩

omit [Digest] [Host (StateM S)] in
/-- The whole is a program with the statements of all pieces. -/
theorem parse_join (hparse : List.Forall₂ (fun piece p => parse piece = .ok p) pieces ps)
    (hlast : ∀ piece ∈ pieces, EndsWithSemicolon piece) :
    ∃ p, parse (String.join pieces) = .ok p ∧
      p.erase.statements = ps.flatMap fun q => q.statements.map Stmt.erase := by
  induction hparse with
  | nil =>
      refine ⟨⟨[]⟩, (parse_eq_ok_iff _ _).mpr ?_, rfl⟩
      have htokens : tokens (String.join []) = [] := Cursor.tokens_nil Place.origin
      rw [htokens, Reading.statements]
  | @cons piece q pieces ps hq _ ih =>
      obtain ⟨hpiece, hlast⟩ := List.forall_mem_cons.mp hlast
      obtain ⟨p, hp, hstmts⟩ := ih hlast
      obtain ⟨r, hr, hboth⟩ := parse_append hq hpiece hp
      refine ⟨r, ?_, ?_⟩
      · rw [String.join_cons]
        exact hr
      · rw [hboth, hstmts, q.erase_statements]
        rfl

/-- Where pieces end in turn, the statements of all of them end. -/
theorem InTurn.ends (hparse : List.Forall₂ (fun piece p => parse piece = .ok p) pieces ps)
    (hlast : ∀ piece ∈ pieces, EndsWithSemicolon piece) {e : TextEnding S}
    (he : InTurn scope pieces ⟨some (.ok (.ok v)), h, s⟩ e) :
    ∃ o, Job.Ends ⟨.stmts scope (ps.flatMap fun q => q.statements.map Stmt.erase) v, h.erase, s⟩ o
      e.state.erase e.host ∧ e.outcome = some ((Run.concluded o).map .ok) := by
  induction hparse generalizing v h s with
  | nil =>
      cases he
      exact ⟨.ok v, Job.ends_stmts_nil_iff.mpr ⟨rfl, rfl, rfl⟩, rfl⟩
  | @cons piece q pieces ps hq _ ih =>
      obtain ⟨hpiece, hlast⟩ := List.forall_mem_cons.mp hlast
      have herased {o : Except Interrupt Value} {h' : Heap (Token Position)} {s' : S}
          (hends : Job.Ends ⟨.stmts scope q.statements .null, h, s⟩ o h' s') :
          Job.Ends ⟨.stmts scope (q.statements.map Stmt.erase) v, h.erase, s⟩ o h'.erase s' :=
        (Job.ends_erase_iff.mpr ⟨h', hends, rfl⟩).before
          (by simpa using hpiece.statements_ne_nil hq) v
      rw [List.flatMap_cons]
      cases he with
      | stop hrun hbreak =>
          obtain ⟨o, hends, houtcome⟩ := (endsIn_annotatedText_iff hq).mp hrun
          obtain ⟨q', i, h', s', hq', hends'⟩ := hbreak
          obtain rfl := Except.ok.inj (hq.symm.trans hq')
          obtain ⟨rfl, -, -⟩ := hends.unique hends'
          exact ⟨_, Job.ends_stmts_append_iff.mpr (.inl ⟨i, rfl, herased hends⟩), houtcome⟩
      | @next _ _ _ e' _ hrun hgoes hrest =>
          obtain ⟨o, hends, houtcome⟩ := (endsIn_annotatedText_iff hq).mp hrun
          cases o with
          | error i => exact absurd ⟨q, i, _, _, hq, hends⟩ hgoes
          | ok w =>
              obtain ⟨outcome, h', s'⟩ := e'
              obtain rfl : outcome = _ := houtcome
              obtain ⟨o, hmore, houtcome⟩ := ih hlast hrest
              exact ⟨o, Job.ends_stmts_append_iff.mpr (.inr ⟨w, _, _, herased hends, hmore⟩),
                houtcome⟩

/-- Where the statements of all pieces end, the pieces end in turn. -/
theorem inTurn_of_ends (hparse : List.Forall₂ (fun piece p => parse piece = .ok p) pieces ps)
    (hlast : ∀ piece ∈ pieces, EndsWithSemicolon piece) {o : Except Interrupt Value} {h' : Heap}
    {s' : S} (hends : Job.Ends
      ⟨.stmts scope (ps.flatMap fun q => q.statements.map Stmt.erase) v, h.erase, s⟩ o h' s') :
    ∃ e : TextEnding S, InTurn scope pieces ⟨some (.ok (.ok v)), h, s⟩ e := by
  induction hparse generalizing v h s with
  | nil => exact ⟨_, .done⟩
  | @cons piece q pieces ps hq _ ih =>
      obtain ⟨hpiece, hlast⟩ := List.forall_mem_cons.mp hlast
      have hannotated {o : Except Interrupt Value} {h' : Heap} {s' : S}
          (hends : Job.Ends ⟨.stmts scope (q.statements.map Stmt.erase) v, h.erase, s⟩ o h' s') :
          ∃ k : Heap (Token Position), Job.Ends ⟨.stmts scope q.statements .null, h, s⟩ o k s' ∧
            k.erase = h' := by
        obtain ⟨k, hk, hheap⟩ := Job.ends_erase_iff.mp hends
        exact ⟨k, hk.before (hpiece.statements_ne_nil hq) .null, hheap⟩
      rw [List.flatMap_cons] at hends
      rcases Job.ends_stmts_append_iff.mp hends with ⟨i, rfl, hq'⟩ | ⟨w, h₁, s₁, hq', hmore⟩
      · obtain ⟨k, hk, -⟩ := hannotated hq'
        exact ⟨⟨_, k, s'⟩, .stop ((endsIn_annotatedText_iff hq).mpr ⟨_, hk, rfl⟩)
          ⟨q, i, k, s', hq, hk⟩⟩
      · obtain ⟨k, hk, rfl⟩ := hannotated hq'
        have hgoes : ¬ BreaksOff scope piece h s := by
          rintro ⟨p, i, k', s', hp, hi⟩
          obtain rfl := Except.ok.inj (hq.symm.trans hp)
          cases (hk.unique hi).1
        obtain ⟨e, he⟩ := ih hlast hmore
        exact ⟨e, .next ((endsIn_annotatedText_iff hq).mpr ⟨_, hk, rfl⟩) hgoes he⟩

end

/-- A text that is made of programs, each with a semicolon at its end, is a program, and
it is run as the pieces are in turn: it ends exactly if they do, and then in the same
way, but for the tokens kept in functions. -/
theorem pieces_run_as_whole {pieces : List String}
    (hpieces : ∀ piece ∈ pieces, (∃ p, parse piece = .ok p) ∧ EndsWithSemicolon piece) :
    (∃ p, parse (String.join pieces) = .ok p) ∧
    ∀ (scope : ScopeId) (h : Heap (Token Position)) (s : S),
      ((∃ e, InTurn scope pieces ⟨some (.ok (.ok .null)), h, s⟩ e) ↔
        ∃ e, EndsIn (Run.annotatedText · scope (String.join pieces)) h s e) ∧
      ∀ e e', InTurn scope pieces ⟨some (.ok (.ok .null)), h, s⟩ e →
        EndsIn (Run.annotatedText · scope (String.join pieces)) h s e' → e.Alike e' := by
  obtain ⟨ps, hparse⟩ := exists_programs fun piece hp => (hpieces piece hp).1
  have hlast : ∀ piece ∈ pieces, EndsWithSemicolon piece := fun piece hp => (hpieces piece hp).2
  obtain ⟨p, hp, hstmts⟩ := parse_join hparse hlast
  rw [p.erase_statements] at hstmts
  refine ⟨⟨p, hp⟩, fun scope h s => ?_⟩
  have hends : ∀ e : TextEnding S, InTurn scope pieces ⟨some (.ok (.ok .null)), h, s⟩ e →
      ∃ o k, Job.Ends ⟨.stmts scope p.statements .null, h, s⟩ o k e.host ∧
        k.erase = e.state.erase ∧ e.outcome = some ((Run.concluded o).map .ok) := by
    intro e he
    obtain ⟨o, hends, houtcome⟩ := he.ends hparse hlast
    rw [← hstmts] at hends
    obtain ⟨k, hk, hheap⟩ := Job.ends_erase_iff.mp hends
    exact ⟨o, k, hk, hheap, houtcome⟩
  constructor
  · constructor
    · rintro ⟨e, he⟩
      obtain ⟨o, k, hk, -, -⟩ := hends e he
      exact ⟨⟨_, k, e.host⟩, (endsIn_annotatedText_iff hp).mpr ⟨o, hk, rfl⟩⟩
    · rintro ⟨e', he'⟩
      obtain ⟨o, hk, -⟩ := (endsIn_annotatedText_iff hp).mp he'
      have herased := Job.ends_erase_iff.mpr ⟨_, hk, rfl⟩
      rw [hstmts] at herased
      exact inTurn_of_ends hparse hlast herased
  · intro e e' he he'
    obtain ⟨o, k, hk, hheap, houtcome⟩ := hends e he
    obtain ⟨o', hk', houtcome'⟩ := (endsIn_annotatedText_iff hp).mp he'
    obtain ⟨rfl, rfl, hhost⟩ := hk.unique hk'
    apply Ending.alike_of_map
    rw [Ending.map, Ending.map, hheap, hhost, houtcome, houtcome']

end

/-- A text in four pieces, of which the third returns. -/
def fourPieces : List String :=
  ["var f = func(x) \x7b x + 1 \x7d; ", "val two = f(1); print(two);",
    "if (two == 2) \x7b return \"two\" \x7d; ", "print(\"never\");"]

/-- The pieces and the whole both end with the return, on hosts in memory on which the
same was written. -/
theorem fourPieces_run_as_whole :
    (∀ piece ∈ fourPieces, (∃ p, parse piece = .ok p) ∧ EndsWithSemicolon piece) ∧
    ∃ e e', InTurn Heap.globalScope fourPieces
        ⟨some (.ok (.ok .null)), Heap.initial, Memory.start [] ∅⟩ e ∧
      EndsIn (Run.annotatedText · Heap.globalScope (String.join fourPieces)) Heap.initial
        (Memory.start [] ∅) e' ∧
      e.Alike e' ∧ e.host.output = "2\n" := by
  have hchecked : ∀ piece ∈ fourPieces, (parse piece).isOk = true ∧
      (tokens piece).getLast?.map Token.kind = some .semicolon := by decide +kernel
  have hpieces : ∀ piece ∈ fourPieces, (∃ p, parse piece = .ok p) ∧ EndsWithSemicolon piece := by
    intro piece hpiece
    obtain ⟨hok, hkind⟩ := hchecked piece hpiece
    obtain ⟨t, ht, hkind⟩ := Option.map_eq_some_iff.mp hkind
    refine ⟨?_, t, ht, hkind⟩
    cases hparse : parse piece with
    | ok p => exact ⟨p, rfl⟩
    | error errors =>
        rw [hparse] at hok
        cases hok
  have hends : ((Run.annotatedText 14 Heap.globalScope (String.join fourPieces)).ending Heap.initial
      (Memory.start [] ∅)).outcome.isSome = true := by decide +kernel
  have houtput : ((Run.annotatedText 14 Heap.globalScope (String.join fourPieces)).ending
      Heap.initial (Memory.start [] ∅)).host.output = "2\n" := by decide +kernel
  have hwhole : EndsIn (Run.annotatedText · Heap.globalScope (String.join fourPieces)) Heap.initial
      (Memory.start [] ∅) _ :=
    ⟨Option.isSome_iff_ne_none.mp hends, 14, rfl⟩
  obtain ⟨hiff, halike⟩ :=
    (pieces_run_as_whole hpieces).2 Heap.globalScope Heap.initial (Memory.start [] ∅)
  obtain ⟨e, he⟩ := hiff.mpr ⟨_, hwhole⟩
  have hboth := halike e _ he hwhole
  exact ⟨hpieces, e, _, he, hwhole, hboth, hboth.host ▸ houtput⟩

end MonkeyLang
