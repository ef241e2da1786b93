import MonkeyLang.Proofs.Run.Policy
import MonkeyLang.Proofs.Store.Contents

/-!
# Runs keep to sound policies

The operators make atoms, and the builtin functions do nothing but operations on
the heap and on the host.  So the runs of all trees keep to a sound policy, by
induction on the fuel.
-/

namespace MonkeyLang

variable {α σ S : Type}

/-! ## Operators -/

theorem UnaryOp.isAtom_of_apply {op : UnaryOp} {v w : Value} (h : op.apply v = .ok w) :
    w.IsAtom := by
  cases op with
  | not => cases v <;> cases h <;> trivial
  | negate =>
      cases v with
      | int n =>
          cases h
          trivial
      | _ => cases h

theorem repeatText_isAtom {text : String} {count : Int64} {w : Value}
    (h : repeatText text count = .ok w) : w.IsAtom := by
  rw [repeatText] at h
  split at h
  · cases h
    trivial
  · cases h

namespace BinaryOp

variable {op : BinaryOp} {w : Value}

theorem isAtom_of_applyInt {l r : Int64} (h : op.applyInt l r = .ok w) : w.IsAtom := by
  cases op with
  | divide | modulo =>
      rw [applyInt] at h
      split at h
      · cases h
      · cases h
        trivial
  | _ =>
      cases h
      trivial

theorem isAtom_of_applyStr {l r : String} (h : op.applyStr l r = .ok w) : w.IsAtom := by
  cases op <;> cases h
  trivial

theorem isAtom_of_applyOther {l r : Value} (h : op.applyOther l r = .ok w) : w.IsAtom := by
  unfold applyOther at h
  split at h
  · cases op <;> cases h <;> trivial
  · cases h

theorem isAtom_of_apply {l r : Value} (h : op.apply l r = .ok w) : w.IsAtom := by
  revert h
  fun_cases BinaryOp.apply op l r with
  | case1 => exact isAtom_of_applyInt
  | case2 => exact isAtom_of_applyStr
  | case3 | case5 => exact repeatText_isAtom
  | case4 | case6 | case7 => exact isAtom_of_applyOther

end BinaryOp

/-- What an index expression finds is an atom, or held by an array or a hash. -/
theorem Heap.index_cases [Digest] {h : Heap α} {v i w : Value} (hw : h.index v i = .ok w) :
    w.IsAtom ∨ (∃ id, v = .array id ∧ w ∈ h.elements id) ∨
      ∃ id p, v = .hash id ∧ p ∈ (h.table id).pairs ∧ w = p.2 := by
  revert hw
  fun_cases Heap.index h v i with
  | case1 id n =>
      rintro ⟨⟩
      cases hfound : memberAt? (h.elements id) n with
      | none => exact Or.inl trivial
      | some w => exact Or.inr (Or.inl ⟨id, rfl, mem_of_memberAt? hfound⟩)
  | case2 text n =>
      rintro ⟨⟩
      cases memberAt? text.toList n with
      | none => exact Or.inl trivial
      | some c => exact Or.inl trivial
  | case3 id _ key =>
      rintro ⟨⟩
      cases hfound : (h.table id).find? key with
      | none => exact Or.inl trivial
      | some w =>
          obtain ⟨p, hp, rfl⟩ := Table.exists_pair_of_find? hfound
          exact Or.inr (Or.inr ⟨id, p, rfl, hp, rfl⟩)
  | case4 | case5 => rintro ⟨⟩

namespace Policy

variable {P : Policy σ} {st : σ} {R : σ → Value → Prop} [Store α σ] (hP : P.Sound)

/-! ## Builtin functions -/

section

variable (hst : P.Holds st)

include hP hst

theorem runs_elementsOf (b : Builtin) {v : Value} (hv : P.Fit st v) :
    P.Runs st (Builtin.elementsOf b v : RunOn σ (StateM S) _)
      (fun st' es => ∀ e ∈ es, P.Fit st' e) R := by
  cases v with
  | array id => exact runs_see hP hst fun e he => hP.element hst hv he
  | _ => exact runs_raise hP hst _

theorem runs_textOf (b : Builtin) (v : Value) :
    P.Runs st (Builtin.textOf b v : RunOn σ (StateM S) _) (fun _ _ => True) R := by
  cases v with
  | str s => exact runs_pure hP hst trivial
  | _ => exact runs_raise hP hst _

theorem runs_newArray {es : List Value} (hes : ∀ e ∈ es, P.Fit st e) :
    P.Runs st (Builtin.newArray es : RunOn σ (StateM S) _) P.Fit R := by
  refine (runs_change (hP.array hst hes)).bind hP fun st' id hst' _ hid => ?_
  exact runs_pure hP hst' hid

theorem runs_length (v : Value) :
    P.Runs st (Builtin.length v : RunOn σ (StateM S) _) P.Fit R := by
  cases v with
  | str s => exact runs_pure hP hst (hP.atom trivial)
  | array id =>
      have hsee : P.Runs st (Run.see (·.elements id) : RunOn σ (StateM S) _)
          (fun _ _ => True) R := runs_see hP hst trivial
      exact hsee.bind hP fun st' es hst' _ _ => runs_pure hP hst' (hP.atom trivial)
  | _ => exact runs_raise hP hst _

theorem runs_popFrom {v : Value} (hv : P.Fit st v) :
    P.Runs st (Builtin.popFrom v : RunOn σ (StateM S) _) P.Fit R := by
  cases v with
  | array id =>
      refine (runs_change (hP.pop hst hv)).bind hP fun st' last hst' _ hlast => ?_
      cases last with
      | some v => exact runs_pure hP hst' (hlast v rfl)
      | none => exact runs_raise hP hst' _
  | _ => exact runs_raise hP hst _

theorem runs_display (v : Value) :
    P.Runs st (Run.see (·.display v) : RunOn σ (StateM S) _) (fun _ _ => True) R :=
  runs_see hP hst trivial

variable [Host (StateM S)]

theorem runs_printAll (vs : List Value) :
    P.Runs st (Builtin.printAll vs : RunOn σ (StateM S) _) (fun _ _ => True) R := by
  induction vs generalizing st with
  | nil => exact runs_pure hP hst trivial
  | cons v vs ih =>
      refine (runs_display hP hst v).bind hP fun st' text hst' _ _ => ?_
      exact (runs_onHost hP hst' _).bind hP fun st'' _ hst'' _ _ => ih hst''

theorem runs_readLine : P.Runs st (Builtin.readLine : RunOn σ (StateM S) _) P.Fit R := by
  refine (runs_onHost hP hst _).bind hP fun st' line hst' _ _ => ?_
  cases line with
  | some text => exact runs_pure hP hst' (hP.atom trivial)
  | none => exact runs_pure hP hst' (hP.atom trivial)

theorem runs_exitWith (code : Int32) :
    P.Runs st (Builtin.exitWith code : RunOn σ (StateM S) _) P.Fit R := by
  refine (runs_onHost hP hst _).bind hP fun st' ends hst' _ _ => ?_
  cases ends with
  | true =>
      refine runs_interrupt hP hst' ?_
      rintro _ ⟨⟩
  | false => exact runs_pure hP hst' (hP.atom trivial)

/-- A builtin function keeps to the policy, and never returns from the function
around its call. -/
theorem runs_call (b : Builtin) {args : List Value} (hargs : ∀ v ∈ args, P.Fit st v) :
    P.Runs st (b.call args : RunOn σ (StateM S) _) P.Fit Nothing := by
  induction b, args using Builtin.call_cases with
  | len v => exact runs_length hP hst v
  | first v =>
      refine (runs_elementsOf hP hst _ (hargs v (by simp))).bind hP fun st' es hst' _ hes => ?_
      refine runs_pure hP hst' ?_
      cases es with
      | nil => exact hP.atom trivial
      | cons e es => exact hes e (by simp)
  | last v =>
      refine (runs_elementsOf hP hst _ (hargs v (by simp))).bind hP fun st' es hst' _ hes => ?_
      refine runs_pure hP hst' ?_
      cases hlast : es.getLast? with
      | none => exact hP.atom trivial
      | some e => exact hes e (List.mem_of_getLast? hlast)
  | rest v =>
      refine (runs_elementsOf hP hst _ (hargs v (by simp))).bind hP fun st' es hst' _ hes => ?_
      cases es with
      | nil => exact runs_pure hP hst' (hP.atom trivial)
      | cons e es => exact runs_newArray hP hst' fun e' he' => hes e' (List.mem_cons_of_mem _ he')
  | push v x =>
      refine (runs_elementsOf hP hst _ (hargs v (by simp))).bind hP fun st' es hst' hleads hes => ?_
      refine runs_newArray hP hst' fun e he => ?_
      rcases List.mem_append.mp he with he | he
      · exact hes e he
      · rw [List.mem_singleton.mp he]
        exact hP.fit_mono hleads (hargs x (by simp))
  | pop v => exact runs_popFrom hP hst (hargs v (by simp))
  | print vs =>
      refine (runs_printAll hP hst vs).bind hP fun st' _ hst' _ _ => ?_
      exact runs_pure hP hst' (hP.atom trivial)
  | input => exact runs_readLine hP hst
  | prompt v =>
      refine (runs_display hP hst v).bind hP fun st' text hst' _ _ => ?_
      exact (runs_onHost hP hst' _).bind hP fun st'' _ hst'' _ _ => runs_readLine hP hst''
  | exit => exact runs_exitWith hP hst 0
  | code v =>
      cases v with
      | int n =>
          rw [Builtin.call]
          split
          · exact runs_exitWith hP hst _
          · exact runs_raise hP hst _
      | _ => exact runs_raise hP hst _
  | read v =>
      refine (runs_textOf hP hst _ v).bind hP fun st' path hst' _ _ => ?_
      refine (runs_onHost hP hst' _).bind hP fun st'' contents hst'' _ _ => ?_
      cases contents with
      | ok => exact runs_pure hP hst'' (hP.atom trivial)
      | error => exact runs_raise hP hst'' _
  | write v x =>
      refine (runs_textOf hP hst _ v).bind hP fun st' path hst' _ _ => ?_
      refine (runs_display hP hst' x).bind hP fun st'' contents hst'' _ _ => ?_
      refine (runs_onHost hP hst'' _).bind hP fun st₃ done hst₃ _ _ => ?_
      cases done with
      | ok => exact runs_pure hP hst₃ (hP.atom trivial)
      | error => exact runs_raise hP hst₃ _
  | refused b args hcall =>
      rw [hcall]
      exact runs_raise hP hst _

end

/-! ## Names and members -/

section

include hP

theorem runs_name (hst : P.Holds st) {scope : ScopeId} (hscope : P.Within st scope) (x : String) :
    P.Runs st (Run.name scope x : RunOn σ (StateM S) _) P.Fit P.Fit := by
  have hsee : P.Runs st (Run.see (·.lookup scope x) : RunOn σ (StateM S) _)
      (fun st' found => ∀ v, found = some v → P.Fit st' v) P.Fit :=
    runs_see hP hst fun v hv => hP.lookup hst hscope hv
  refine hsee.bind hP fun st' found hst' _ hfound => ?_
  cases found with
  | some v => exact runs_settle hP hst' (hfound v rfl)
  | none =>
      cases Builtin.ofName? x with
      | some b => exact runs_pure hP hst' (hP.atom trivial)
      | none => exact runs_raise hP hst' _

theorem runs_index [Digest] {v w : Value} (hst : P.Holds st) (hv : P.Fit st v) :
    P.Runs (S := S) st (do
      let found ← Run.see (·.index v w)
      let u ← Run.ofExcept found
      Run.settle u) P.Fit P.Fit := by
  have hsee : P.Runs (S := S) st (Run.see (·.index v w))
      (fun st' found => ∀ u, found = .ok u → P.Fit st' u) P.Fit := by
    refine runs_see hP hst fun u hu => ?_
    rcases Heap.index_cases hu with hatom | ⟨id, rfl, hmem⟩ | ⟨id, p, rfl, hmem, rfl⟩
    · exact hP.atom hatom
    · exact hP.element hst hv hmem
    · exact hP.pair hst hv hmem
  refine hsee.bind hP fun st' found hst' _ hfound => ?_
  refine (runs_ofExcept hP hst' hfound).bind hP fun st'' u hst'' _ hu => ?_
  exact runs_settle hP hst'' hu

end

/-! ## Trees -/

/-- With `n` units of fuel, trees keep to the policy. -/
structure KeptUpTo (S : Type) [Digest] [Host (StateM S)] (P : Policy σ) (n : Nat) : Prop where
  expr : ∀ {st scope} (e : Expr α), P.Holds st → P.Within st scope →
    P.Runs (S := S) st (Run.expr n scope e) P.Fit P.Fit
  exprs : ∀ {st scope} (es : List (Expr α)), P.Holds st → P.Within st scope →
    P.Runs (S := S) st (Run.exprs n scope es) (fun st' vs => ∀ v ∈ vs, P.Fit st' v) P.Fit
  pairs : ∀ {st scope} (ps : List (Expr α × Expr α)) {t : Table}, P.Holds st →
    P.Within st scope → (∀ p ∈ t.pairs, P.Fit st p.2) →
      P.Runs (S := S) st (Run.pairs n scope ps t) (fun st' t => ∀ p ∈ t.pairs, P.Fit st' p.2) P.Fit
  stmt : ∀ {st scope} (x : Stmt α), P.Holds st → P.Within st scope →
    P.Runs (S := S) st (Run.stmt n scope x) P.Fit P.Fit
  stmts : ∀ {st scope} (xs : List (Stmt α)) {v : Value}, P.Holds st → P.Within st scope →
    P.Fit st v → P.Runs (S := S) st (Run.stmts n scope xs v) P.Fit P.Fit
  loop : ∀ {st scope} (c : Expr α) (xs : List (Stmt α)) {v : Value}, P.Holds st →
    P.Within st scope → P.Fit st v → P.Runs (S := S) st (Run.loop n scope c xs v) P.Fit P.Fit
  apply : ∀ {st} {callee : Value} {args : List Value}, P.Holds st → P.Fit st callee →
    (∀ v ∈ args, P.Fit st v) → P.Runs (S := S) st (Run.apply n callee args) P.Fit Nothing

variable [Digest] [Host (StateM S)]

section

variable {n : Nat} (ih : KeptUpTo S P n) {scope : ScopeId}

include hP ih

theorem runs_exprs (es : List (Expr α)) (hst : P.Holds st) (hscope : P.Within st scope) :
    P.Runs (S := S) st (Run.exprs (n + 1) scope es) (fun st' vs => ∀ v ∈ vs, P.Fit st' v)
      P.Fit := by
  cases es with
  | nil => exact runs_pure hP hst fun v hv => (List.not_mem_nil hv).elim
  | cons e es =>
      refine (ih.expr e hst hscope).bind hP fun st' v hst' hleads hv => ?_
      refine (ih.exprs es hst' (hP.within_mono hleads hscope)).bind hP
        fun st'' vs hst'' hleads' hvs => ?_
      refine runs_pure hP hst'' fun w hw => ?_
      rcases List.mem_cons.mp hw with rfl | hw
      · exact hP.fit_mono hleads' hv
      · exact hvs w hw

theorem runs_pairs (ps : List (Expr α × Expr α)) {t : Table} (hst : P.Holds st)
    (hscope : P.Within st scope) (ht : ∀ p ∈ t.pairs, P.Fit st p.2) :
    P.Runs (S := S) st (Run.pairs (n + 1) scope ps t)
      (fun st' t => ∀ p ∈ t.pairs, P.Fit st' p.2) P.Fit := by
  cases ps with
  | nil => exact runs_pure hP hst ht
  | cons p ps =>
      obtain ⟨k, e⟩ := p
      refine (ih.expr k hst hscope).bind hP fun st' kv hst' hleads _ => ?_
      have hscope' := hP.within_mono hleads hscope
      cases kv.key? with
      | none => exact runs_raise hP hst' _
      | some key =>
          refine (ih.expr e hst' hscope').bind hP fun st'' v hst'' hleads' hv => ?_
          refine ih.pairs ps hst'' (hP.within_mono hleads' hscope') fun p hp => ?_
          rcases Table.mem_pairs_insert hp with rfl | hp
          · exact hv
          · exact hP.fit_mono (hP.trans hleads hleads') (ht p hp)

theorem runs_stmt (x : Stmt α) (hst : P.Holds st) (hscope : P.Within st scope) :
    P.Runs (S := S) st (Run.stmt (n + 1) scope x) P.Fit P.Fit := by
  cases x with
  | declare kind t x e =>
      refine (ih.expr e hst hscope).bind hP fun st' v hst' hleads hv => ?_
      have hdeclare := hP.declare kind x.name hst' (hP.within_mono hleads hscope) hv
      refine (runs_rebind hP hdeclare).bind hP fun st'' _ hst'' _ _ => ?_
      exact runs_pure hP hst'' (hP.atom trivial)
  | ret t e =>
      refine (ih.expr e hst hscope).bind hP fun st' v hst' _ hv => ?_
      refine runs_interrupt hP hst' ?_
      rintro _ ⟨⟩
      exact hv
  | expr t e => exact ih.expr e hst hscope

theorem runs_stmts (xs : List (Stmt α)) {v : Value} (hst : P.Holds st)
    (hscope : P.Within st scope) (hv : P.Fit st v) :
    P.Runs (S := S) st (Run.stmts (n + 1) scope xs v) P.Fit P.Fit := by
  cases xs with
  | nil => exact runs_pure hP hst hv
  | cons x xs =>
      refine (ih.stmt x hst hscope).bind hP fun st' w hst' hleads hw => ?_
      exact ih.stmts xs hst' (hP.within_mono hleads hscope) hw

theorem runs_loop (c : Expr α) (xs : List (Stmt α)) {v : Value} (hst : P.Holds st)
    (hscope : P.Within st scope) (hv : P.Fit st v) :
    P.Runs (S := S) st (Run.loop (n + 1) scope c xs v) P.Fit P.Fit := by
  refine (ih.expr c hst hscope).bind hP fun st' w hst' hleads _ => ?_
  have hscope' := hP.within_mono hleads hscope
  cases w.truthy with
  | true =>
      refine (ih.stmts xs hst' hscope' (hP.atom (v := .null) trivial)).bind hP
        fun st'' u hst'' hleads' hu => ?_
      exact ih.loop c xs hst'' (hP.within_mono hleads' hscope') hu
  | false => exact runs_pure hP hst' (hP.fit_mono hleads hv)

theorem runs_apply {callee : Value} {args : List Value} (hst : P.Holds st)
    (hcallee : P.Fit st callee) (hargs : ∀ v ∈ args, P.Fit st v) :
    P.Runs (S := S) st (Run.apply (n + 1) callee args) P.Fit Nothing := by
  cases callee with
  | func id =>
      have hsee : P.Runs (S := S) st (Run.see (·.closure? id))
          (fun st' found => st' = st ∧ found = (Store.heap st).closure? id) Nothing :=
        runs_see hP hst ⟨rfl, rfl⟩
      refine hsee.bind hP fun st' found _ _ hfound => ?_
      obtain ⟨rfl, hfound⟩ := hfound
      cases found with
      | none => exact runs_raise hP hst _
      | some f =>
          by_cases hlen : f.params.length = args.length
          · simp only [if_pos hlen]
            have henter := hP.enter hst hcallee hfound.symm hargs
            refine (runs_change henter).bind hP fun st'' scope hst'' _ hscope => ?_
            have hbody := ih.stmts f.body.statements hst'' hscope (hP.atom (v := .null) trivial)
            exact hbody.returned hP
          · simp only [if_neg hlen]
            exact runs_raise hP hst _
  | builtin b => exact runs_call hP hst b hargs
  | _ => exact runs_raise hP hst _

theorem runs_expr (e : Expr α) (hst : P.Holds st) (hscope : P.Within st scope) :
    P.Runs (S := S) st (Run.expr (n + 1) scope e) P.Fit P.Fit := by
  cases e with
  | ident x => exact runs_name hP hst hscope x.name
  | int | str | bool => exact runs_pure hP hst (hP.atom trivial)
  | unary t op r =>
      refine (ih.expr r hst hscope).bind hP fun st' v hst' _ _ => ?_
      exact runs_ofExcept hP hst' fun w hw => hP.atom (UnaryOp.isAtom_of_apply hw)
  | binary t op l r =>
      refine (ih.expr l hst hscope).bind hP fun st' v hst' hleads _ => ?_
      refine (ih.expr r hst' (hP.within_mono hleads hscope)).bind hP fun st'' w hst'' _ _ => ?_
      exact runs_ofExcept hP hst'' fun u hu => hP.atom (BinaryOp.isAtom_of_apply hu)
  | assign t x e =>
      refine (ih.expr e hst hscope).bind hP fun st' v hst' hleads hv => ?_
      have hassign := hP.assign x.name hst' (hP.within_mono hleads hscope) hv
      refine (runs_rebind hP hassign).bind hP fun st'' _ hst'' hleads' _ => ?_
      exact runs_pure hP hst'' (hP.fit_mono hleads' hv)
  | cond t c b alt =>
      refine (ih.expr c hst hscope).bind hP fun st' v hst' hleads _ => ?_
      have hscope' := hP.within_mono hleads hscope
      cases v.truthy with
      | true => exact ih.stmts b.statements hst' hscope' (hP.atom trivial)
      | false =>
          cases alt with
          | none => exact runs_pure hP hst' (hP.atom trivial)
          | some b' => exact ih.stmts b'.statements hst' hscope' (hP.atom trivial)
  | loop t c b => exact ih.loop c b.statements hst hscope (hP.atom trivial)
  | func t ps b =>
      refine (runs_change (hP.func ps b hst hscope)).bind hP fun st' id hst' _ hid => ?_
      exact runs_pure hP hst' hid
  | call t e es =>
      refine (ih.expr e hst hscope).bind hP fun st' callee hst' hleads hcallee => ?_
      refine (ih.exprs es hst' (hP.within_mono hleads hscope)).bind hP
        fun st'' args hst'' hleads' hargs => ?_
      have happly := ih.apply hst'' (hP.fit_mono hleads' hcallee) hargs
      refine (happly.mono (fun _ _ h => h) fun _ _ h => h.elim).bind hP
        fun st₃ v hst₃ _ hv => ?_
      exact runs_settle hP hst₃ hv
  | array t es =>
      refine (ih.exprs es hst hscope).bind hP fun st' vs hst' _ hvs => ?_
      exact runs_newArray hP hst' hvs
  | index t l i =>
      refine (ih.expr l hst hscope).bind hP fun st' v hst' hleads hv => ?_
      refine (ih.expr i hst' (hP.within_mono hleads hscope)).bind hP
        fun st'' w hst'' hleads' _ => ?_
      exact runs_index hP hst'' (hP.fit_mono hleads' hv)
  | hash t ps =>
      have hempty : ∀ p ∈ Table.empty.pairs, P.Fit st p.2 := fun p hp => (List.not_mem_nil hp).elim
      refine (ih.pairs ps hst hscope hempty).bind hP fun st' table hst' _ htable => ?_
      refine (runs_change (hP.hash hst' htable)).bind hP fun st'' id hst'' _ hid => ?_
      exact runs_pure hP hst'' hid

end

include hP in
/-- Trees keep to every sound policy. -/
theorem keptUpTo (n : Nat) : KeptUpTo S P n := by
  induction n with
  | zero =>
      exact ⟨fun _ hst _ => runs_outOfFuel hP hst, fun _ hst _ => runs_outOfFuel hP hst,
        fun _ _ hst _ _ => runs_outOfFuel hP hst, fun _ hst _ => runs_outOfFuel hP hst,
        fun _ _ hst _ _ => runs_outOfFuel hP hst, fun _ _ _ hst _ _ => runs_outOfFuel hP hst,
        fun hst _ _ => runs_outOfFuel hP hst⟩
  | succ n ih =>
      exact ⟨runs_expr hP ih, runs_exprs hP ih, runs_pairs hP ih, runs_stmt hP ih,
        runs_stmts hP ih, runs_loop hP ih, runs_apply hP ih⟩

include hP in
/-- Programs keep to every sound policy, and end with an error or with a value
that fits. -/
theorem runs_program (hst : P.Holds st) {scope : ScopeId} (hscope : P.Within st scope) (n : Nat)
    (p : Program α) :
    P.Runs (S := S) st (Run.program n scope p) (fun st' v => (∃ m, v = .error m) ∨ P.Fit st' v)
      Nothing := by
  have hnull : P.Fit st .null := hP.atom trivial
  have hstmts := (keptUpTo (S := S) hP n).stmts p.statements hst hscope hnull
  exact (hstmts.returned hP).reported hP

end Policy

end MonkeyLang
