import MonkeyLang.Host.Memory
import MonkeyLang.Proofs.Grammar.RoundTrip
import MonkeyLang.Proofs.Run.Fuel
import MonkeyLang.Proofs.Run.Natural

/-!
# Running the rendering of a program

A program and the program that its text is read as differ in annotations only,
and running does not look at annotations.
-/

namespace MonkeyLang

variable {α β S : Type}

/-- A heap without annotations can be kept in place of the heap. -/
theorem Heap.erase_along : Store.Along (σ := Heap α) (τ := Heap) (fun _ => ()) Heap.erase where
  heap _ := rfl
  put _ _ := rfl

namespace Run

variable [Digest] [Host (StateM S)] (n : Nat) (scope : ScopeId)

theorem program_erase (p : Program α) (h : Heap α) (s : S) :
    (program n scope p.erase).ending h.erase s =
      ((program n scope p).ending h s).map Heap.erase :=
  program_map Heap.erase_along n scope p h s

/-- A text is run with functions that keep no annotations as it is run with
functions that keep them. -/
theorem text_erase (source : String) (h : Heap (Token Position)) (s : S) :
    (text n scope source).ending h.erase s =
      ((annotatedText n scope source).ending h s).map Heap.erase := by
  rw [text, annotatedText]
  cases parse source with
  | error errors => rfl
  | ok p =>
      simp only [RunOn.ending_bind, program_erase]
      exact Ending.map_andThen _ _ fun _ _ _ => rfl

/-- The rendering of a program is run, but for annotations, as the program is. -/
theorem text_render {source : String} {p : Program (Token Position)}
    (hp : parse source = .ok p) : text (m := StateM S) n scope p.render = text n scope source := by
  obtain ⟨q, hq, heq⟩ := p.parse_render (parse_wellFormed hp)
  rw [text, text, hq, hp]
  simp only [heq]

/-- With the same fuel, the rendering of a program ends where the program does,
but for annotations. -/
theorem annotatedText_render {source : String} {p : Program (Token Position)}
    (hp : parse source = .ok p) (h : Heap (Token Position)) (s : S) :
    ((annotatedText n scope p.render).ending h s).map Heap.erase =
      ((annotatedText n scope source).ending h s).map Heap.erase := by
  rw [← text_erase, ← text_erase, text_render n scope hp]

end Run

/-- Two endings that are the same but for annotations: the outcomes, the states
of the host, the scopes and the texts of all values are the same, and so are the
objects when annotations are left out. -/
structure Ending.Alike (e e' : Ending (Heap α) S β) : Prop where
  outcome : e'.outcome = e.outcome
  host : e'.host = e.host
  scopes : e'.state.scopes = e.state.scopes
  objects : e'.state.erase.objects = e.state.erase.objects
  display : ∀ v, e'.state.display v = e.state.display v

theorem Ending.alike_of_map {e e' : Ending (Heap α) S β}
    (h : e'.map Heap.erase = e.map Heap.erase) : e.Alike e' := by
  obtain ⟨o, st, s⟩ := e
  obtain ⟨o', st', s'⟩ := e'
  obtain ⟨rfl, hst, rfl⟩ := Ending.mk.inj h
  refine ⟨rfl, rfl, congrArg (fun h : Heap => h.scopes) hst,
    congrArg (fun h : Heap => h.objects) hst, fun v => ?_⟩
  calc st'.display v = st'.erase.display v := (st'.display_map _ v).symm
    _ = st.erase.display v := by rw [hst]
    _ = st.display v := st.display_map _ v

open Run RunOn

/-- The rendering of a program ends if and only if the program does, and then
the two end alike: only the tokens kept in functions can be others. -/
theorem rendering_ends_alike [Digest] [Host (StateM S)] {source : String}
    {p : Program (Token Position)} (hp : parse source = .ok p) (scope : ScopeId) (h : Heap (Token Position)) (s : S) :
    ((∃ e, EndsIn (annotatedText · scope p.render) h s e) ↔
      ∃ e, EndsIn (annotatedText · scope source) h s e) ∧
    ∀ e e', EndsIn (annotatedText · scope source) h s e →
      EndsIn (annotatedText · scope p.render) h s e' → e.Alike e' := by
  have halike : ∀ n, ((annotatedText n scope source).ending h s).Alike
      ((annotatedText n scope p.render).ending h s) :=
    fun n => Ending.alike_of_map (annotatedText_render n scope hp h s)
  constructor
  · constructor
    · rintro ⟨_, hends, n, rfl⟩
      exact ⟨_, (halike n).outcome ▸ hends, n, rfl⟩
    · rintro ⟨_, hends, n, rfl⟩
      exact ⟨_, (halike n).outcome ▸ hends, n, rfl⟩
  · rintro _ e' ⟨hends, n, rfl⟩ he'
    -- The rendering ends with the same fuel, and this is its only end.
    have hrender : EndsIn (annotatedText · scope p.render) h s
        ((annotatedText n scope p.render).ending h s) :=
      ⟨(halike n).outcome ▸ hends, n, rfl⟩
    obtain rfl := EndsIn.unique (fun _ _ => annotatedText_steady scope p.render) he' hrender
    exact halike n

/-- A text in which a function holds a chain of conditionals. -/
def chainText : String :=
  "val f = func(x) \x7b if (x) \x7b 1 \x7d else if (f) \x7b f \x7d \x7d; f(false)"

/-- Both the text and its rendering end on a host in memory, and they end
alike. -/
theorem chainText_ends_alike :
    ∃ p e e', parse chainText = .ok p ∧
      EndsIn (annotatedText · Heap.globalScope chainText) Heap.initial (Memory.start [] ∅) e ∧
      EndsIn (annotatedText · Heap.globalScope p.render) Heap.initial (Memory.start [] ∅) e' ∧
      e.Alike e' := by
  have hok : (parse chainText).isOk = true := by decide +kernel
  obtain ⟨p, hp⟩ : ∃ p, parse chainText = .ok p := by
    cases hparse : parse chainText with
    | ok p => exact ⟨p, rfl⟩
    | error errors =>
        rw [hparse] at hok
        cases hok
  have hends : ((annotatedText 14 Heap.globalScope chainText).ending Heap.initial
      (Memory.start [] ∅)).outcome.isSome = true := by decide +kernel
  have hsource : EndsIn (annotatedText · Heap.globalScope chainText) Heap.initial
      (Memory.start [] ∅) _ :=
    ⟨Option.isSome_iff_ne_none.mp hends, 14, rfl⟩
  obtain ⟨hiff, halike⟩ :=
    rendering_ends_alike hp Heap.globalScope Heap.initial (Memory.start [] ∅)
  obtain ⟨e', hrender⟩ := hiff.mpr ⟨_, hsource⟩
  exact ⟨p, _, e', hp, hsource, hrender, halike _ e' hsource hrender⟩

end MonkeyLang
