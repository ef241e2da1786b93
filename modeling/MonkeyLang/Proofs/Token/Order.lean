import MonkeyLang.Proofs.Token.Tiling

/-!
# The order and the spelling of tokens

The tokens of a text do not overlap, and each is found behind the one before it.  Where there is
one way to write the tokens of a kind, the literal of a token is that.
-/

namespace MonkeyLang

variable {π : Type}

/-- Whether the literal of a token is what tokens of its kind are written as. -/
structure Token.Spelled (t : Token π) : Prop where
  word : ∀ w, (w, t.kind) ∈ Kind.keywords → t.literal = w
  digits : t.kind = .integer → t.literal ≠ "" ∧ ∀ c ∈ t.literal.toList, c.isDigit = true

namespace Kind

/-- Whether tokens of a kind are neither reserved words nor numbers. -/
def IsOther (k : Kind) : Prop :=
  k ≠ .integer ∧ ∀ p ∈ keywords, p.2 ≠ k

instance (k : Kind) : Decidable k.IsOther :=
  inferInstanceAs (Decidable (_ ∧ _))

theorem isOther_of_ofSign? {c : Char} {k : Kind} (h : ofSign? c = some k) : k.IsOther := by
  rw [ofSign?.eq_def] at h
  split at h <;> cases h <;> decide

theorem isOther_of_ofSignEqual? {c : Char} {k : Kind} (h : ofSignEqual? c = some k) :
    k.IsOther := by
  rw [ofSignEqual?.eq_def] at h
  split at h <;> cases h <;> decide

end Kind

theorem Token.spelled_of_isOther {t : Token π} (h : t.kind.IsOther) : t.Spelled :=
  ⟨fun _ hw => absurd rfl (h.2 _ hw), fun hinteger => absurd hinteger h.1⟩

theorem Lexeme.Stands.spelled {before after : List Char} {l : Lexeme} (h : l.Stands before after) :
    (l.spanning before).Spelled := by
  have hword : ∀ p ∈ Kind.keywords, p.2 ≠ .integer := by decide
  cases h with
  | @keyword w kind hrun hkind =>
      have hinjective : ∀ p ∈ Kind.keywords, ∀ q ∈ Kind.keywords, p.2 = q.2 → p.1 = q.1 := by decide
      exact ⟨fun _ hw => hinjective _ hkind _ hw rfl, fun h => absurd h (hword _ hkind)⟩
  | @integer w hrun =>
      have hliteral : (String.ofList w).toList = w := String.toList_ofList
      refine ⟨fun _ hw => absurd rfl (hword _ hw), fun _ => ⟨?_, ?_⟩⟩
      · intro hempty
        exact hrun.ne_nil (String.ofList_eq_empty_iff.mp hempty)
      · intro c hc
        exact hrun.all c (hliteral ▸ hc)
  | identifier =>
      have hother : Kind.IsOther .identifier := by decide
      exact Token.spelled_of_isOther hother
  | closed | unclosed =>
      have hother : Kind.IsOther .string := by decide
      exact Token.spelled_of_isOther hother
  | illegal =>
      have hother : Kind.IsOther .illegal := by decide
      exact Token.spelled_of_isOther hother
  | pair hkind => exact Token.spelled_of_isOther (Kind.isOther_of_ofSignEqual? hkind)
  | sign hkind => exact Token.spelled_of_isOther (Kind.isOther_of_ofSign? hkind)

/-- The tokens of a text are found one behind the other, and are spelled as their kinds are. -/
theorem tokens_apart_and_spelled (source : String) :
    ((tokens source).Pairwise fun t u => t.pos.stop ≤ u.pos.start) ∧
    ∀ t ∈ tokens source, t.pos.start < t.pos.stop ∧ t.Spelled := by
  have htiles : Tiles [] source.toList ((tokens source).map (Token.map Position.span)) :=
    (Cursor.tiles_iff rfl (seam_nil _)).mpr rfl
  refine ⟨List.pairwise_map.mp htiles.apart, ?_⟩
  intro t ht
  have hmem : t.map Position.span ∈ (tokens source).map (Token.map Position.span) :=
    List.mem_map_of_mem ht
  obtain ⟨front, l, back, -, hstands, heq⟩ := htiles.lexeme _ hmem
  have hspelled : (t.map Position.span).Spelled := by
    rw [heq]
    exact hstands.spelled
  exact ⟨(htiles.span _ hmem).2, hspelled.word, hspelled.digits⟩

end MonkeyLang
