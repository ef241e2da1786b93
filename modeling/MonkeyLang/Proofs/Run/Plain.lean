import MonkeyLang.Host.Memory
import MonkeyLang.Proofs.Run.History
import MonkeyLang.Proofs.Run.Region

/-!
# Errors and returns are not data

A program that begins where no error and no return can be reached never puts one
into a variable, a constant, an array or a hash, and never returns one from a
function.  What it can reach, and what it makes, is a region of plain values.
-/

namespace MonkeyLang

variable {α S : Type}

/-- Values that are neither errors nor returns. -/
def Value.IsPlain : Value → Prop
  | .ret _ | .error _ => False
  | _ => True

theorem Value.isPlain_inherited : Value.Inherited Value.IsPlain where
  atom v hv := by
    cases v with
    | ret | error | func | array | hash => exact hv.elim
    | _ => trivial
  func _ := trivial
  array _ := trivial
  hash _ := trivial
  ret _ hv := hv.elim

namespace Heap

/-- Nothing that can be reached from some nodes is an error or a return. -/
def PlainFrom (h : Heap α) (roots : List Node) : Prop :=
  ∀ q, h.Reaches roots q → ∀ v ∈ h.values q, v.IsPlain

/-- The nodes that a program run in a scope may come to know: those that can be
reached from the scope, and those that are made later. -/
def Known (h : Heap α) (scope : ScopeId) (q : Node) : Prop :=
  h.Reaches [.scope scope] q ∨ h.IsNew q

theorem known_scope (h : Heap α) (scope : ScopeId) : h.Known scope (.scope scope) :=
  Or.inl (reaches_root List.mem_cons_self)

theorem PlainFrom.encloses {h : Heap α} {scope : ScopeId} (hplain : h.PlainFrom [.scope scope]) :
    h.Encloses Value.IsPlain (h.Known scope) := by
  refine ⟨fun q hq => Or.inr hq, fun q hq v hv => ?_, fun q hq r hr => ?_⟩
  · rcases hq with hreach | hnew
    · exact hplain q hreach v hv
    · rw [hnew.values_eq] at hv
      cases hv
  · rcases hq with hreach | hnew
    · exact Or.inl (hreach.link hr)
    · rw [hnew.links_eq] at hr
      cases hr

theorem Encloses.plainFrom {h : Heap α} {R : Node → Prop} (hh : h.Encloses Value.IsPlain R)
    {roots : List Node} (hroots : ∀ q ∈ roots, R q) : h.PlainFrom roots :=
  fun q hq => hh.values q (hq.induction hroots hh.links)

end Heap

/-- An evaluation ends with a plain value or returns a plain value, if either, and
what can be reached from this value is plain. -/
structure Ending.IsPlain (e : Ending (Heap α) S Value) : Prop where
  value : ∀ v, e.outcome = some (.ok v) → v.IsPlain ∧ e.state.PlainFrom v.nodes
  returned : ∀ v, e.outcome = some (.error (.ret v)) → v.IsPlain ∧ e.state.PlainFrom v.nodes

theorem Policy.Keeps.isPlain {R : Node → Prop} {h : Heap α} {e : Ending (Heap α) S Value}
    {Q : Heap α → Value → Prop} (hQ : ∀ h' v, Q h' v → v.Fits Value.IsPlain R)
    (he : (Policy.region Value.IsPlain R).Keeps h (fun _ v => v.Fits Value.IsPlain R) Q e) :
    e.IsPlain := by
  have hfits : ∀ v : Value, v.Fits Value.IsPlain R → v.IsPlain ∧ e.state.PlainFrom v.nodes :=
    fun v hv => ⟨hv.value, Heap.Encloses.plainFrom he.holds hv.nodes⟩
  exact ⟨fun v hv => hfits v (he.value v hv), fun v hv => hfits v (hQ _ v (he.returned v hv))⟩

/-- Errors and returns stay out of the data of the run of a program. -/
structure StaysPlain [Digest] [Host (StateM S)] (n : Nat) (scope : ScopeId) (p : Program α)
    (h : Heap α) (s : S) : Prop where
  /-- In every heap that the run goes through, whatever the program can reach,
  could reach at the beginning, or has made holds plain values only. -/
  heaps : ∀ h' ∈ Run.heaps n scope p h s, ∀ q, h.Known scope q ∨ h'.Reaches [.scope scope] q →
    ∀ v ∈ h'.values q, v.IsPlain
  /-- Whatever is evaluated in such a heap comes to plain values, and returns
  plain values only. -/
  evaluations : ∀ h' ∈ Run.heaps n scope p h s, ∀ t, h.Known scope (.scope t) →
    ∀ (k : Nat) (s' : S),
    (∀ x, ((Run.expr k t x).ending h' s').IsPlain) ∧
    (∀ x, ((Run.stmt k t x).ending h' s').IsPlain) ∧
    ∀ xs, ((Run.stmts k t xs .null).ending h' s').IsPlain
  /-- A call in such a heap comes to a plain value, and is not itself left by a
  return. -/
  calls : ∀ h' ∈ Run.heaps n scope p h s, ∀ (f : Value) (args : List Value),
    (∀ v ∈ f :: args, v.Fits Value.IsPlain (h.Known scope)) → ∀ (k : Nat) (s' : S),
      ((Run.apply k f args).ending h' s').IsPlain ∧
      ∀ v, ((Run.apply k f args).ending h' s').outcome ≠ some (.error (.ret v))
  /-- The heap that the run leaves is one of those that it goes through. -/
  last : (Run.heaps n scope p h s).head? = some ((Run.program n scope p).ending h s).state
  /-- The program comes to an error, or to a plain value from which only plain
  values can be reached. -/
  result : ∀ v, ((Run.program n scope p).ending h s).outcome = some (.ok v) →
    (∃ m, v = .error m) ∨
      v.IsPlain ∧ ((Run.program n scope p).ending h s).state.PlainFrom v.nodes
  /-- The program is not left by a return. -/
  interrupt : ∀ i, ((Run.program n scope p).ending h s).outcome = some (.error i) →
    ∃ code, i = .exit code

/-- Errors and returns stay out of the data of a program that is run in a scope
from which none can be reached. -/
theorem data_stay_plain [Digest] [Host (StateM S)] {h : Heap α} {scope : ScopeId}
    (hplain : h.PlainFrom [.scope scope]) (n : Nat) (p : Program α) (s : S) :
    StaysPlain n scope p h s := by
  have hP := Policy.region_sound (α := α) (R := h.Known scope) Value.isPlain_inherited
  have hholds : ∀ h' ∈ Run.heaps n scope p h s, h'.Encloses Value.IsPlain (h.Known scope) :=
    Policy.holds_of_mem_heaps hP hplain.encloses (h.known_scope scope) n p s
  have hfits : ∀ (h' : Heap α) (v : Value), v.Fits Value.IsPlain (h.Known scope) →
      v.Fits Value.IsPlain (h.Known scope) := fun _ _ hv => hv
  have hnothing : ∀ (h' : Heap α) (v : Value), Policy.Nothing h' v →
      v.Fits Value.IsPlain (h.Known scope) := fun _ _ hv => hv.elim
  constructor
  case heaps =>
    intro h' hh' q hq
    rcases hq with hknown | hreach
    · exact (hholds h' hh').values q hknown
    · refine (hholds h' hh').plainFrom (fun r hr => ?_) q hreach
      rw [List.mem_singleton.mp hr]
      exact h.known_scope scope
  case evaluations =>
    intro h' hh' t ht k s'
    have hkept := Policy.keptUpTo (S := S) hP k
    refine ⟨fun x => ?_, fun x => ?_, fun xs => ?_⟩
    · exact (hkept.expr x (hholds h' hh') ht s').isPlain hfits
    · exact (hkept.stmt x (hholds h' hh') ht s').isPlain hfits
    · exact (hkept.stmts xs (hholds h' hh') ht (hP.atom (v := .null) trivial) s').isPlain hfits
  case calls =>
    intro h' hh' f args hargs k s'
    have hkeeps := (Policy.keptUpTo (S := S) hP k).apply (hholds h' hh')
      (hargs f List.mem_cons_self) (fun v hv => hargs v (List.mem_cons_of_mem _ hv)) s'
    exact ⟨hkeeps.isPlain hnothing, fun v hv => hkeeps.returned v hv⟩
  case last => exact Run.head?_heaps n scope p h s
  case result =>
    intro v hv
    have hkeeps := Policy.runs_program hP hplain.encloses (h.known_scope scope) n p s
    rcases hkeeps.value v hv with herror | hv
    · exact Or.inl herror
    · exact Or.inr ⟨hv.value, Heap.Encloses.plainFrom hkeeps.holds hv.nodes⟩
  case interrupt => exact fun i => Run.exit_of_program

/-- A heap in which a variable is bound to an array. -/
def arrayInScope : Heap :=
  ⟨#[.array [.int 1]], #[⟨Assoc.ofList [("xs", .array 0)], Assoc.empty, none⟩]⟩

/-- A program that returns while it makes an array. -/
def returnInArray : Program Unit :=
  ⟨[.declare .val () ⟨(), "y"⟩
    (.array () [.cond () (.bool () true) (.mk () [.ret () (.ident ⟨(), "xs"⟩)]) none])]⟩

/-- The program is run on a host in memory, and ends with the array of the
variable. -/
theorem returnInArray_staysPlain :
    arrayInScope.PlainFrom [.scope 0] ∧
    ((Run.program 9 0 returnInArray).ending arrayInScope (Memory.start [] ∅)).outcome =
      some (.ok (.array 0)) ∧
    StaysPlain 9 0 returnInArray arrayInScope (Memory.start [] ∅) := by
  have hplain : arrayInScope.PlainFrom [.scope 0] := by
    intro q _ v hv
    match q with
    | .object 0 =>
        rw [List.mem_singleton.mp hv]
        trivial
    | .scope 0 =>
        rw [List.mem_singleton.mp hv]
        trivial
    | .object (_ + 1) => cases hv
    | .scope (_ + 1) => cases hv
  exact ⟨hplain, rfl, data_stay_plain hplain 9 returnInArray _⟩

end MonkeyLang
