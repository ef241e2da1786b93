import MonkeyLang.Proofs.Run.Carrying
import MonkeyLang.Proofs.Session.Division

/-!
# A session runs its entries in turn

A terminal is seated on a host if its states are made of a state of the host, of what is
still to be typed, and of what is on the screen.  On such a terminal a session does to the
heap and to the host what its entries do when their texts are run one after the other, and
nothing else; on the screen it shows where an entry begins and goes on, and what has come of
each.
-/

namespace MonkeyLang

variable {S T : Type}

open RunOn

namespace Run

variable [Digest] [Host (StateM S)] [Host (StateM T)]

theorem text_carries {ψ : S → T} (hψ : Host.Along ψ) (n : Nat) (scope : ScopeId)
    (source : String) : Carries id ψ (text n scope source) (text n scope source) := by
  rw [text, text]
  cases parse source with
  | error errors => exact fun _ _ => rfl
  | ok p =>
      have hprogram := (carries_congruence (Store.along_id (σ := Heap)) hψ).program n scope p.erase
      rw [Program.map_id] at hprogram
      exact hprogram.bind fun v => fun _ _ => rfl

/-- A text that ends, and not with the end of the process, has an outcome. -/
theorem text_ends_ok {scope : ScopeId} {source : String} {h : Heap} {s : S}
    {e : Ending Heap S (Except (List (ParseError Position)) Value)}
    (he : EndsIn (text · scope source) h s e)
    (hstays : ∀ code, e.outcome ≠ some (.error (.exit code))) :
    ∃ outcome, e.outcome = some (.ok outcome) := by
  obtain ⟨hsome, n, rfl⟩ := he
  revert hstays hsome
  dsimp only
  rw [text]
  cases parse source with
  | error errors => exact fun _ _ => ⟨.error errors, rfl⟩
  | ok p =>
      have hexits (i) (hi : ((program n scope p.erase).ending h s).outcome = some (.error i)) :=
        exit_of_program hi
      dsimp only
      rw [ending_bind]
      revert hexits
      obtain ⟨_ | i | v, h', s'⟩ := (program n scope p.erase).ending h s
      · exact fun _ _ hsome => absurd rfl hsome
      · intro hexits hstays _
        obtain ⟨code, rfl⟩ := hexits i rfl
        exact absurd rfl (hstays code)
      · exact fun _ _ _ => ⟨.ok v, rfl⟩

end Run

/-- The states of a terminal are made of the states of a host, of what is still to be typed,
and of what is on the screen.  Only the host does what programs ask for, and only sessions
take what is typed and show something. -/
structure Terminal.Seats [Host (StateM T)] [Terminal (StateM S)]
    (seat : T → List Char → String → S) : Prop where
  along : ∀ typed screen, Host.Along fun t => seat t typed screen
  say : ∀ text t typed screen,
    (Terminal.say text : StateM S Unit).run (seat t typed screen) =
      ((), seat t typed (screen ++ text))
  hear : ∀ t typed screen,
    (Terminal.hear : StateM S (Option String)).run (seat t typed screen) =
      match takeLine? typed with
      | none => (none, seat t typed screen)
      | some (line, rest) => (some line, seat t rest screen)

theorem Desk.seats : Terminal.Seats Desk.mk where
  along _ _ := ⟨fun _ _ => rfl, fun _ => rfl, fun _ _ => rfl, fun _ _ => rfl, fun _ _ _ => rfl⟩
  say _ _ _ _ := rfl
  hear t typed screen := by
    change (match takeLine? typed with
      | none => (none, Desk.mk t typed screen)
      | some (line, rest) => (some line, Desk.mk t rest screen)) = _
    cases takeLine? typed <;> rfl

namespace Session

/-! ## The parts of a session -/

section

variable [Digest] [Terminal (StateM S)]

/-- What a session does with an outcome: it shows it and goes on. -/
def proceed (n : Nat) (scope : ScopeId)
    (outcome : Except (List (ParseError Position)) Value) : Run (StateM S) Unit := do
  match ← Run.see (answer · outcome) with
  | some text =>
    say text
    run n scope
  | none => run n scope

/-- What a session does with a line that begins an entry. -/
def take (n : Nat) (scope : ScopeId) (line : String) : Run (StateM S) Unit := do
  let source ← entry n line
  let outcome ← Run.text n scope source
  proceed n scope outcome

theorem run_succ (n : Nat) (scope : ScopeId) :
    (run (n + 1) scope : Run (StateM S) Unit) = (do
      say prompt
      match ← Run.onHost Terminal.hear with
      | none => return ()
      | some line => if isBlankText line then return () else take n scope line) :=
  rfl

omit [Digest] in
theorem entry_steady_succ (n : Nat) (sofar : String) :
    Approximates (S := S) (entry n sofar) (entry (n + 1) sofar) := by
  induction n generalizing sofar with
  | zero => exact outOfFuel_approximates _
  | succ n ih =>
      rw [entry, entry]
      split
      · refine (Approximates.refl _).bind fun _ => (Approximates.refl _).bind fun line => ?_
        cases line with
        | some line => exact ih _
        | none => exact .refl _
      · exact .refl _

theorem proceed_steady {n m : Nat} {scope : ScopeId}
    (h : Approximates (S := S) (run n scope) (run m scope))
    (outcome : Except (List (ParseError Position)) Value) :
    Approximates (S := S) (proceed n scope outcome) (proceed m scope outcome) := by
  refine (Approximates.refl _).bind fun shown => ?_
  cases shown with
  | some text => exact (Approximates.refl _).bind fun _ => h
  | none => exact h

theorem run_steady_succ (n : Nat) (scope : ScopeId) :
    Approximates (S := S) (run n scope) (run (n + 1) scope) := by
  induction n with
  | zero => exact outOfFuel_approximates _
  | succ n ih =>
      rw [run_succ, run_succ]
      refine (Approximates.refl _).bind fun _ => (Approximates.refl _).bind fun line => ?_
      cases line with
      | none => exact .refl _
      | some line =>
          dsimp only
          split
          · exact .refl _
          · refine (entry_steady_succ n line).bind fun source => ?_
            refine (Run.text_steady scope source n.le_succ).bind fun outcome => ?_
            exact proceed_steady ih outcome

omit [Digest] in
theorem entry_steady (sofar : String) {n m : Nat} (h : n ≤ m) :
    Approximates (S := S) (entry n sofar) (entry m sofar) :=
  approximates_of_le (x := (entry · sofar)) (entry_steady_succ · sofar) h

theorem run_steady (scope : ScopeId) {n m : Nat} (h : n ≤ m) :
    Approximates (S := S) (run n scope) (run m scope) :=
  approximates_of_le (x := (run · scope)) (run_steady_succ · scope) h

end

/-! ## What is shown and what is run -/

namespace Entry

/-- How often more lines are asked for: once before each later line, and once more where
there is none although the entry is open. -/
def asked (e : Entry) : Nat :=
  e.more.length + (isOpen e.text).toNat

/-- What is shown for an entry. -/
def shows (e : Entry) (h : Heap) (outcome : Except (List (ParseError Position)) Value) : String :=
  prompt ++ String.join (List.replicate e.asked continuationPrompt) ++ (answer h outcome).getD ""

end Entry

section

variable [Digest] [Host (StateM T)]

/-- The texts of entries are run one after the other, each beginning where the one before it
has ended; what is shown for them stands in the same order. -/
inductive RunsThrough (scope : ScopeId) :
    List Entry → Heap → T → (shown : String) → Heap → T → Prop
  | done {h : Heap} {t : T} : RunsThrough scope [] h t "" h t
  | entry {e : Entry} {entries : List Entry} {h h₁ h₂ : Heap} {t t₁ t₂ : T} {shown : String}
      {outcome : Except (List (ParseError Position)) Value}
      (hrun : EndsIn (Run.text · scope e.text) h t ⟨some (.ok outcome), h₁, t₁⟩)
      (hrest : RunsThrough scope entries h₁ t₁ shown h₂ t₂) :
      RunsThrough scope (e :: entries) h t (e.shows h₁ outcome ++ shown) h₂ t₂

/-- The texts of entries all end when they are run one after the other, and none of them ends
the process. -/
def AllEnd (scope : ScopeId) : List Entry → Heap → T → Prop
  | [], _, _ => True
  | e :: entries, h, t =>
    ∃ e', EndsIn (Run.text · scope e.text) h t e' ∧
      (∀ code, e'.outcome ≠ some (.error (.exit code))) ∧ AllEnd scope entries e'.state e'.host

theorem allEnd_iff {scope : ScopeId} {entries : List Entry} {h : Heap} {t : T} :
    AllEnd scope entries h t ↔ ∃ shown h' t', RunsThrough scope entries h t shown h' t' := by
  induction entries generalizing h t with
  | nil => exact ⟨fun _ => ⟨_, _, _, .done⟩, fun _ => trivial⟩
  | cons e entries ih =>
      constructor
      · rintro ⟨⟨o, h₁, t₁⟩, hends, hstays, hrest⟩
        obtain ⟨outcome, rfl⟩ := Run.text_ends_ok hends hstays
        obtain ⟨shown, h', t', hthrough⟩ := ih.mp hrest
        exact ⟨_, _, _, .entry hends hthrough⟩
      · rintro ⟨_, h', t', hthrough⟩
        cases hthrough with
        | entry hrun hrest => exact ⟨_, hrun, fun code => nofun, ih.mpr ⟨_, _, _, hrest⟩⟩

end

/-! ## Sessions on a terminal that is seated on a host -/

section

variable [Host (StateM T)] [Terminal (StateM S)] {seat : T → List Char → String → S}
  (hseat : Terminal.Seats seat) {h : Heap} {t : T} {typed rest : List Char} {screen : String}

include hseat

theorem ending_say (text : String) :
    (say text : Run (StateM S) Unit).ending h (seat t typed screen) =
      ⟨some (.ok ()), h, seat t typed (screen ++ text)⟩ := by
  rw [say, ending_onHost, hseat.say]

theorem ending_hear_of_line {line : List Char} (hline : IsLine line rest) :
    (Run.onHost Terminal.hear : Run (StateM S) (Option String)).ending h
        (seat t (line ++ rest) screen) =
      ⟨some (.ok (some (lineText line))), h, seat t rest screen⟩ := by
  rw [ending_onHost, hseat.hear, hline.takeLine?]

theorem ending_hear_nil :
    (Run.onHost Terminal.hear : Run (StateM S) (Option String)).ending h (seat t [] screen) =
      ⟨some (.ok none), h, seat t [] screen⟩ := by
  rw [ending_onHost, hseat.hear]
  rfl

/-- An entry is read as it is gathered. -/
theorem endsIn_entry (screen : String) {read more : List (List Char)}
    (hmore : Gathers read typed more rest) (hread : read ≠ []) :
    EndsIn (S := S) (entry · (linesText read)) h (seat t typed screen)
      ⟨some (.ok (linesText (read ++ more))), h, seat t rest (screen ++
        String.join (List.replicate (more.length + (isOpen (linesText (read ++ more))).toNat)
          continuationPrompt))⟩ := by
  induction hmore generalizing screen with
  | @closed read typed hopen =>
      refine ⟨Option.some_ne_none _, 1, ?_⟩
      dsimp only
      rw [entry, if_neg (Bool.eq_false_iff.mp hopen), List.append_nil, hopen]
      simp [ending_pure]
  | @cut read hopen =>
      refine ⟨Option.some_ne_none _, 1, ?_⟩
      dsimp only
      rw [entry, if_pos hopen, ending_bind_of_ok (ending_say hseat _),
        ending_bind_of_ok (ending_hear_nil hseat), List.append_nil, hopen]
      simp [ending_pure]
  | @line read more line typed rest hopen hline hmore ih =>
      obtain ⟨-, n, hn⟩ := ih (screen ++ continuationPrompt)
        (List.append_ne_nil_of_left_ne_nil hread _)
      refine ⟨Option.some_ne_none _, n + 1, ?_⟩
      dsimp only at hn ⊢
      rw [entry, if_pos hopen, ending_bind_of_ok (ending_say hseat _),
        ending_bind_of_ok (ending_hear_of_line hseat hline)]
      dsimp only
      rw [← linesText_concat hread, hn, List.append_assoc, List.singleton_append,
        List.length_cons, Nat.add_right_comm, List.replicate_succ, String.join_cons,
        String.append_assoc]

variable [Digest]

/-- After a text has ended, what has come of it is shown, and the session goes on. -/
theorem endsIn_proceed_iff {scope : ScopeId}
    {outcome : Except (List (ParseError Position)) Value} {e : Ending Heap S Unit} :
    EndsIn (S := S) (proceed · scope outcome) h (seat t rest screen) e ↔
      EndsIn (run · scope) h (seat t rest (screen ++ (answer h outcome).getD "")) e := by
  have hseen : (Run.see (answer · outcome) : Run (StateM S) (Option String)).ending h
      (seat t rest screen) = ⟨some (.ok (answer h outcome)), h, seat t rest screen⟩ := rfl
  refine (endsIn_bind_of_ok hseen).trans ?_
  cases answer h outcome with
  | none =>
      rw [Option.getD_none, String.append_empty]
  | some text => exact endsIn_bind_of_ok (ending_say hseat text)

/-- A text does to the host on which the terminal is seated what it does to the host alone. -/
theorem endsIn_text_iff {scope : ScopeId} {source : String}
    {e : Ending Heap S (Except (List (ParseError Position)) Value)} :
    EndsIn (Run.text · scope source) h (seat t rest screen) e ↔
      ∃ e', EndsIn (Run.text · scope source) h t e' ∧
        e'.carry id (fun t => seat t rest screen) = e :=
  endsIn_carry_iff (φ := id) fun n => Run.text_carries (hseat.along rest screen) n scope source

/-- Where a session goes on after an entry has been read: it has run the entry, and has shown
what has come of it. -/
theorem endsIn_run_text_iff {scope : ScopeId} {source : String} {h' : Heap} {s' : S} :
    EndsIn (fun n => Run.text n scope source >>= proceed n scope) h (seat t rest screen)
        ⟨some (.ok ()), h', s'⟩ ↔
      ∃ outcome h₁ t₁, EndsIn (Run.text · scope source) h t ⟨some (.ok outcome), h₁, t₁⟩ ∧
        EndsIn (run · scope) h₁ (seat t₁ rest (screen ++ (answer h₁ outcome).getD ""))
          ⟨some (.ok ()), h', s'⟩ := by
  rw [endsIn_bind_iff (fun _ _ => Run.text_steady scope source)
    fun outcome _ _ hle => proceed_steady (run_steady scope hle) outcome]
  constructor
  · rintro (⟨outcome, h₁, s₁, htext, hgoes⟩ | ⟨i, h₁, s₁, -, heq⟩)
    · obtain ⟨⟨_, _, t₁⟩, hends, heq⟩ := (endsIn_text_iff hseat).mp htext
      obtain ⟨rfl, rfl, rfl⟩ := Ending.mk.inj heq
      exact ⟨outcome, _, t₁, hends, (endsIn_proceed_iff hseat).mp hgoes⟩
    · cases heq
  · rintro ⟨outcome, h₁, t₁, hends, hgoes⟩
    exact .inl ⟨outcome, h₁, _, (endsIn_text_iff hseat).mpr ⟨_, hends, rfl⟩,
      (endsIn_proceed_iff hseat).mpr hgoes⟩

omit hseat in
/-- A session that stops where an entry may begin runs nothing. -/
theorem endsIn_run_of_stop {scope : ScopeId} {h' : Heap} {s' : S}
    (hstop : ∀ n, (run (n + 1) scope).ending h (seat t typed screen) =
      ⟨some (.ok ()), h, seat t rest (screen ++ prompt)⟩) :
    EndsIn (S := S) (run · scope) h (seat t typed screen) ⟨some (.ok ()), h', s'⟩ ↔
      ∃ shown t', RunsThrough scope [] h t shown h' t' ∧
        s' = seat t' rest (screen ++ shown ++ prompt) := by
  rw [← endsIn_succ_iff (fun _ _ => run_steady scope),
    endsIn_of_ending hstop (Option.some_ne_none _)]
  constructor
  · intro heq
    obtain ⟨-, rfl, rfl⟩ := Ending.mk.inj heq
    exact ⟨"", t, .done, by rw [String.append_empty]⟩
  · rintro ⟨_, _, hthrough, rfl⟩
    cases hthrough
    rw [String.append_empty]

/-- A session ends where its entries end when they are run in turn, and nowhere else. -/
theorem endsIn_run_iff {scope : ScopeId} {entries : List Entry} {last : Option (List Char)}
    (hdivides : Divides typed entries last rest) {h' : Heap} {s' : S} :
    EndsIn (S := S) (run · scope) h (seat t typed screen) ⟨some (.ok ()), h', s'⟩ ↔
      ∃ shown t', RunsThrough scope entries h t shown h' t' ∧
        s' = seat t' rest (screen ++ shown ++ prompt) := by
  induction hdivides generalizing h t screen with
  | ended =>
      refine endsIn_run_of_stop fun n => ?_
      rw [run_succ, ending_bind_of_ok (ending_say hseat _),
        ending_bind_of_ok (ending_hear_nil hseat)]
      rfl
  | blank hline hblank =>
      refine endsIn_run_of_stop fun n => ?_
      rw [run_succ, ending_bind_of_ok (ending_say hseat _),
        ending_bind_of_ok (ending_hear_of_line hseat hline)]
      dsimp only
      rw [if_pos hblank]
      rfl
  | @entry line typed typed' rest more entries last hline hbegins hmore _ ih =>
      have hentry (screen : String) :=
        endsIn_entry hseat (h := h) (t := t) screen hmore (List.cons_ne_nil line [])
      rw [linesText_singleton] at hentry
      rw [← endsIn_succ_iff fun _ _ => run_steady scope]
      simp only [run_succ]
      refine (endsIn_bind_of_ok (ending_say hseat prompt)).trans ?_
      refine (endsIn_bind_of_ok (ending_hear_of_line hseat hline)).trans ?_
      simp only [hbegins, Bool.false_eq_true, if_false]
      refine (EndsIn.bind_iff (fun _ _ => entry_steady _) (fun source n m hle => ?_)
        (hentry _)).trans ?_
      · exact (Run.text_steady scope source hle).bind fun outcome =>
          proceed_steady (run_steady scope hle) outcome
      rw [endsIn_run_text_iff hseat]
      -- What stands on the screen behind the entry is what is shown for it.
      have hshows (h₁ : Heap) (outcome : Except (List (ParseError Position)) Value)
          (shown : String) : screen ++ (Entry.shows ⟨line, more⟩ h₁ outcome ++ shown) =
            screen ++ prompt ++ String.join (List.replicate (Entry.asked ⟨line, more⟩)
              continuationPrompt) ++ (answer h₁ outcome).getD "" ++ shown := by
        simp only [Entry.shows, String.append_assoc]
      constructor
      · rintro ⟨outcome, h₁, t₁, hends, hgoes⟩
        obtain ⟨shown, t', hthrough, rfl⟩ := ih.mp hgoes
        refine ⟨_, t', .entry hends hthrough, ?_⟩
        rw [hshows]
        rfl
      · rintro ⟨_, t', hthrough, rfl⟩
        cases hthrough with
        | entry hrun hrest =>
            refine ⟨_, _, _, hrun, ih.mpr ⟨_, _, hrest, ?_⟩⟩
            rw [hshows]
            rfl

end

end Session

open Session

/-- A session on a terminal that is seated on a host, whatever is typed.  What is typed can be
divided into entries, and the session ends if all of them end when they are run in turn.  Then
heap and host are what the last entry leaves, what is shown is what is shown for the entries
and one prompt more, and what stands behind the entries and the last line is not read.  An
entry that cannot be read as a program leaves the heap and the host as they are. -/
theorem session_runs_entries_in_turn [Digest] [Host (StateM T)] [Terminal (StateM S)]
    {seat : T → List Char → String → S} (hseat : Terminal.Seats seat) (typed : List Char) :
    (∃ entries last rest, IsDivision typed entries last rest) ∧
    (∀ entries last rest, IsDivision typed entries last rest →
      ∀ (scope : ScopeId) (h : Heap) (t : T) (screen : String),
        (AllEnd scope entries h t →
          ∃ h' s', EndsIn (Session.run · scope) h (seat t typed screen) ⟨some (.ok ()), h', s'⟩) ∧
        ∀ h' s', EndsIn (Session.run · scope) h (seat t typed screen) ⟨some (.ok ()), h', s'⟩ ↔
          ∃ shown t', RunsThrough scope entries h t shown h' t' ∧
            s' = seat t' rest (screen ++ shown ++ prompt)) ∧
    ∀ source errors, parse source = .error errors →
      ∀ (scope : ScopeId) (h : Heap) (t : T) (e : Ending Heap T _),
        EndsIn (Run.text · scope source) h t e ↔ e = ⟨some (.ok (.error errors)), h, t⟩ := by
  refine ⟨?_, fun entries last rest hdivision scope h t screen => ?_,
    fun source errors hparse scope h t e => ?_⟩
  · obtain ⟨entries, last, rest, hdivides⟩ := Divides.total typed
    exact ⟨entries, last, rest, hdivides.isDivision⟩
  · refine ⟨fun hall => ?_, fun h' s' => endsIn_run_iff hseat hdivision.divides⟩
    obtain ⟨shown, h', t', hthrough⟩ := allEnd_iff.mp hall
    exact ⟨h', _, (endsIn_run_iff hseat hdivision.divides).mpr ⟨shown, t', hthrough, rfl⟩⟩
  · refine endsIn_of_ending (fun n => ?_) (Option.some_ne_none _)
    rw [Run.text, hparse]
    rfl

/-- What is typed at a desk: an entry that goes on over a blank line, one with an answer, one
that cannot be read, a blank line, and something behind it. -/
def typedAtDesk : List Char :=
  "val f = func(x) \x7b\r\n\n x + 1 \x7d\nf(1)\nval = 3\n \nf(2)\n".toList

/-- What a session at a desk shows before its last prompt. -/
def shownAtDesk : String :=
  ">> .. .. >> 2\n>> Woops! We ran into some monkey business here!\n\nparser errors:\n\n" ++
    "\texpected next token to be IDENT, got = instead\n"

/-- The session ends at the blank line, and has run the entries before it. -/
theorem typedAtDesk_runs_in_turn : ∃ entries last h' t',
    IsDivision typedAtDesk entries last "f(2)\n".toList ∧
    RunsThrough Heap.globalScope entries Heap.initial (Memory.start [] ∅) shownAtDesk h' t' := by
  obtain ⟨e, he⟩ : ∃ e, (Session.run 20 Heap.globalScope).ending Heap.initial
    (Desk.mk (Memory.start [] ∅) typedAtDesk "") = e := ⟨_, rfl⟩
  have hok : e.outcome.any Except.isOk = true := he ▸ by decide +kernel
  have htyped : e.host.typed = "f(2)\n".toList := he ▸ by decide +kernel
  have hscreen : e.host.screen = shownAtDesk ++ prompt := he ▸ by decide +kernel
  obtain ⟨outcome, h', desk⟩ := e
  have hends : EndsIn (Session.run · Heap.globalScope) Heap.initial
      (Desk.mk (Memory.start [] ∅) typedAtDesk "") ⟨some (.ok ()), h', desk⟩ := by
    match outcome with
    | none | some (.error i) => cases hok
    | some (.ok _) => exact ⟨Option.some_ne_none _, 20, he⟩
  obtain ⟨⟨entries, last, rest, hdivision⟩, hsession, -⟩ :=
    session_runs_entries_in_turn Desk.seats typedAtDesk
  obtain ⟨-, hiff⟩ := hsession entries last rest hdivision Heap.globalScope Heap.initial
    (Memory.start [] ∅) ""
  obtain ⟨shown, t', hthrough, rfl⟩ := (hiff _ _).mp hends
  obtain rfl : rest = "f(2)\n".toList := htyped
  obtain rfl : shown = shownAtDesk := by
    rw [String.empty_append] at hscreen
    exact (String.append_left_inj prompt).mp hscreen
  exact ⟨entries, last, h', t', hdivision, hthrough⟩

end MonkeyLang
