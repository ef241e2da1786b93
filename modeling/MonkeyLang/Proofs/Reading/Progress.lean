import Mathlib.Data.List.Chain
import MonkeyLang.Proofs.Reading.Recursion
import MonkeyLang.Proofs.Reading.Trail
import MonkeyLang.Proofs.Token.Tiling

/-!
# Reading ends

From a call to a call that it makes, either tokens are passed over or the rank of the
parser gets lower.  There are six ranks, so a call is at the bottom of its calls after
six times as many of them as there are tokens, and whatever parser is called at that depth
has its answer: the parsers need not be told to stop.
-/

namespace MonkeyLang

namespace Reading

variable {π : Type} {endPos : π}

/-- On the way from the call `c` to the call `d` tokens are passed over, or else the rank
gets lower. -/
def Advances (c d : Call π) : Prop :=
  ∃ passed, c.tokens = passed ++ d.tokens ∧ (passed = [] → d.parser.rank < c.parser.rank)

namespace Advances

variable {c d e : Call π}

theorem of_eq (htokens : d.tokens = c.tokens) (hrank : d.parser.rank < c.parser.rank) :
    Advances c d :=
  ⟨[], htokens.symm, fun _ => hrank⟩

theorem of_lt (hsuffix : d.tokens <:+ c.tokens) (hlt : d.tokens.length < c.tokens.length) :
    Advances c d := by
  obtain ⟨passed, hpassed⟩ := hsuffix
  refine ⟨passed, hpassed.symm, ?_⟩
  rintro rfl
  rw [← hpassed] at hlt
  exact absurd hlt (Nat.lt_irrefl _)

theorem trans (h : Advances c d) (h' : Advances d e) : Advances c e := by
  obtain ⟨passed, htokens, hrank⟩ := h
  obtain ⟨passed', htokens', hrank'⟩ := h'
  refine ⟨passed ++ passed', by rw [htokens, htokens', List.append_assoc], fun hnil => ?_⟩
  obtain ⟨hpassed, hpassed'⟩ := List.append_eq_nil_iff.mp hnil
  exact Nat.lt_trans (hrank' hpassed') (hrank hpassed)

theorem height_lt (h : Advances c d) : d.height < c.height := by
  obtain ⟨passed, htokens, hrank⟩ := h
  have hmost := d.parser.rank_le
  rw [Call.height, Call.height, htokens, List.length_append]
  cases passed with
  | nil =>
      have := hrank rfl
      rw [List.length_nil]
      omega
  | cons t passed =>
      rw [List.length_cons]
      omega

/-- Between two calls of one parser a token is passed over. -/
theorem passes (h : Advances c d) (hparser : d.parser = c.parser) :
    ∃ passed, passed ≠ [] ∧ c.tokens = passed ++ d.tokens := by
  obtain ⟨passed, htokens, hrank⟩ := h
  refine ⟨passed, fun hnil => ?_, htokens⟩
  have := hrank hnil
  rw [hparser] at this
  exact absurd this (Nat.lt_irrefl _)

end Advances

namespace Call

variable {c d : Call π}

theorem rest_suffix (endPos : π) (c : Call π) : (c.answer endPos).rest <:+ c.tokens :=
  (Call.recorded endPos c).trail.suffix

theorem expr_shorter {p : Precedence} {ts rest : List (Token π)} {e : Expr (Token π)}
    (h : (Reading.expr endPos p ts).Yields e rest) : rest <:+ ts ∧ rest.length < ts.length := by
  refine ⟨Recorded.suffix (Call.recorded endPos (.expr p ts)) h, ?_⟩
  have hlength := h.length_le
  cases ts with
  | nil =>
      have := h.result
      rw [Reading.expr] at this
      cases this
  | cons t r => exact Nat.lt_succ_of_le hlength

theorem Calls.advances (h : c.Calls endPos d) : Advances c d := by
  obtain ⟨found, h⟩ := h
  cases h with
  | operand | conditional | extend | blockStatements | blockStatement | declaration | expression
  | paramItems | exprItems | element | pairItems | key | statement =>
      exact .of_eq rfl (by simp)
  | unary | group | loopCondition | elements | members | rightOperand | assigned | dropped
  | arguments | index | condition | elseIf | returned | skipToken | laterExprItems | laterPairItems =>
      exact .of_lt (List.suffix_cons _ _) (by simp)
  | params | elseBlock | laterParams =>
      exact .of_lt ((List.suffix_cons _ _).trans (List.suffix_cons _ _)) (by grind)
  | @climb _ t r _ _ h =>
      exact .of_lt (Recorded.suffix (Call.recorded endPos (.operand t r)) h)
        (Nat.lt_succ_of_le h.length_le)
  | @climbOn _ left c t r _ _ _ _ h =>
      exact .of_lt (Recorded.suffix (Call.recorded endPos (.extend left c t r)) h)
        (Nat.lt_succ_of_le h.length_le)
  | loopBody _ hc | consequence hc =>
      obtain ⟨hsuffix, hlt⟩ := expr_shorter hc
      exact .of_lt (((List.suffix_cons _ _).trans hsuffix).trans (List.suffix_cons _ _)) (by grind)
  | @funcBody _ _ r _ _ _ _ _ hps =>
      have hsuffix := (params_recorded r).suffix hps
      have hlength := hps.length_le
      exact .of_lt (((List.suffix_cons _ _).trans hsuffix).trans
        ((List.suffix_cons _ _).trans (List.suffix_cons _ _))) (by grind)
  | @alternative _ _ _ brace r' _ rest hc _ hb =>
      obtain ⟨hsuffix, hlt⟩ := expr_shorter hc
      have hblock : rest <:+ r' := Recorded.suffix (Call.recorded endPos (.block brace r')) hb
      have hlength := hb.length_le
      exact .of_lt (((hblock.trans (List.suffix_cons _ _)).trans hsuffix).trans
        (List.suffix_cons _ _)) (by grind)
  | @laterBlockStatements t r _ _ h | @laterStatements t r _ h =>
      subst h
      exact .of_lt (rest_suffix endPos (.statement t r)) (Nat.lt_succ_of_le (Reply.length_le _))
  | @skipStatement _ _ r _ _ h =>
      subst h
      exact .of_lt ((declarationHead_recorded r).trail.suffix.trans (List.suffix_cons _ _))
        (Nat.lt_succ_of_le (Reply.length_le _))
  | @declared _ _ r _ _ h =>
      have hsuffix := (declarationHead_recorded r).suffix h
      exact .of_lt (hsuffix.trans (List.suffix_cons _ _)) (Nat.lt_succ_of_le h.length_le)
  | moreExprItems he =>
      obtain ⟨hsuffix, hlt⟩ := expr_shorter he
      exact .of_lt hsuffix hlt
  | value hk =>
      obtain ⟨hsuffix, hlt⟩ := expr_shorter hk
      exact .of_lt ((List.suffix_cons _ _).trans hsuffix) (by grind)
  | morePairItems hk _ hv =>
      obtain ⟨hsuffix, hlt⟩ := expr_shorter hk
      obtain ⟨hsuffix', hlt'⟩ := expr_shorter hv
      exact .of_lt ((hsuffix'.trans (List.suffix_cons _ _)).trans hsuffix) (by grind)

theorem advances_of_transGen (h : Relation.TransGen (Calls endPos) c d) : Advances c d := by
  induction h with
  | single h => exact h.advances
  | tail _ h ih => exact ih.trans h.advances

theorem upTo_eq {n : Nat} (h : c.height < n) : upTo endPos n c = some (c.answer endPos) := by
  induction n generalizing c with
  | zero => exact absurd h (Nat.not_lt_zero _)
  | succ n ih =>
      refine body_eq fun found d hd => ih ?_
      exact Nat.lt_of_lt_of_le (Calls.advances ⟨found, hd⟩).height_lt (Nat.le_of_lt_succ h)

theorem height_lt (c : Call π) : c.height < 6 * (c.tokens.length + 1) := by
  have hmost := c.parser.rank_le
  rw [height]
  omega

theorem length_le_height {calls : List (Call π)} (h : (c :: calls).IsChain (Calls endPos)) :
    calls.length ≤ c.height := by
  induction calls generalizing c with
  | nil => exact Nat.zero_le _
  | cons d calls ih =>
      obtain ⟨hd, hcalls⟩ := List.isChain_cons_cons.mp h
      exact Nat.lt_of_le_of_lt (ih hcalls) hd.advances.height_lt

end Call

end Reading

open Reading

/-- Whatever parser is called on whatever tokens, it has its answer at a depth of six times
as many calls as there are tokens, with the end; there are never more calls under way at
once; and from a call to those that it makes, and those that they make, tokens are passed
over or the rank gets lower, so a parser that is called again on the way has at least one
token less.  The tokens of a text that may be passed over are those before its end. -/
theorem reading_ends {π : Type} (endPos : π) :
    (∀ (c : Call π) (n : Nat), 6 * (c.tokens.length + 1) ≤ n →
      c.upTo endPos n = some (c.answer endPos)) ∧
    (∀ (c : Call π) (calls : List (Call π)), (c :: calls).IsChain (Call.Calls endPos) →
      calls.length < 6 * (c.tokens.length + 1)) ∧
    (∀ c d : Call π, Relation.TransGen (Call.Calls endPos) c d → Advances c d) ∧
    (∀ c d : Call π, Relation.TransGen (Call.Calls endPos) c d → d.parser = c.parser →
      ∃ passed, passed ≠ [] ∧ c.tokens = passed ++ d.tokens) ∧
    ∀ source : String,
      (∀ t ∈ tokens source, t.kind ≠ .eof) ∧
      Call.upTo (endToken source).pos (6 * ((tokens source).length + 1))
          (.statements (tokens source)) =
        some ⟨some (parseText source).program.statements, [], (parseText source).errors⟩ := by
  refine ⟨fun c n h => Call.upTo_eq (Nat.lt_of_lt_of_le c.height_lt h), fun c calls h => ?_,
    fun c d h => Call.advances_of_transGen h,
    fun c d h hparser => (Call.advances_of_transGen h).passes hparser, fun source => ⟨?_, ?_⟩⟩
  · exact Nat.lt_of_le_of_lt (Call.length_le_height h) c.height_lt
  · exact Cursor.kind_ne_eof _
  · exact Call.upTo_eq (Call.height_lt (.statements (tokens source)))

end MonkeyLang
