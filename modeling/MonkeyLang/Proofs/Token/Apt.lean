import MonkeyLang.Proofs.Token.Bare
import MonkeyLang.Proofs.Tree.WellFormed

/-!
# Tokens whose literals fit their kinds

The literal of an identifier token is a name, and that of a string token has no
quote in it.  This is all that is asked of tokens for the trees made of them to
be such as can be written down.
-/

namespace MonkeyLang

/-- Whether the literal of a token is such as its kind calls for. -/
structure Token.Apt {π : Type} (t : Token π) : Prop where
  name : t.kind = .identifier → IsName t.literal
  text : t.kind = .string → '"' ∉ t.literal.toList

theorem Token.apt_map {π ρ : Type} (f : π → ρ) (t : Token π) : (t.map f).Apt ↔ t.Apt :=
  ⟨fun h => ⟨h.name, h.text⟩, fun h => ⟨h.name, h.text⟩⟩

/-- A token that is neither an identifier nor a string is apt. -/
theorem Token.apt_of_kind {π : Type} {t : Token π} (h : t.kind ≠ .identifier)
    (h' : t.kind ≠ .string) : t.Apt :=
  ⟨fun hk => absurd hk h, fun hk => absurd hk h'⟩

theorem mem_takeWhile {p : Char → Bool} {cs : List Char} {c : Char} (h : c ∈ cs.takeWhile p) :
    p c = true :=
  List.all_eq_true.mp List.all_takeWhile c h

theorem Lexeme.munchString_apt (cs : List Char) : (munchString cs).1.bare.Apt := by
  have hinside : '"' ∉ cs.takeWhile (· ≠ '"') := by
    intro hmem
    simpa using mem_takeWhile hmem
  rw [munchString]
  split
  · exact ⟨by rintro ⟨⟩, fun _ => by rwa [bare, String.toList_ofList]⟩
  · exact ⟨by rintro ⟨⟩, fun _ => by rwa [bare, String.toList_ofList]⟩

theorem Lexeme.munchSign_apt (c : Char) (cs : List Char) : (munchSign c cs).1.bare.Apt := by
  have hsign : (Kind.ofSign? c).getD .illegal ≠ .identifier ∧
      (Kind.ofSign? c).getD .illegal ≠ .string := by
    rw [Kind.ofSign?.eq_def]
    split <;> decide
  rw [munchSign.eq_def]
  split
  · next k _ hk =>
    refine Token.apt_of_kind ?_ ?_ <;> rintro rfl <;> revert hk <;> rw [Kind.ofSignEqual?.eq_def] <;>
      split <;> decide
  · exact Token.apt_of_kind hsign.1 hsign.2

/-- Every token of a text is apt. -/
theorem Lexeme.munch_apt (c : Char) (cs : List Char) : (munch c cs).1.bare.Apt := by
  rw [munch]
  split
  · exact munchString_apt cs
  · split
    · next hc =>
      have hword : ∀ w : List Char, (plain (Kind.ofWord (String.ofList w)) w).bare.literal.toList = w :=
        fun w => String.toList_ofList
      refine ⟨fun hk => ⟨?_, ?_, hk⟩, fun hk => absurd hk (Kind.ofWord_ne (by decide) _)⟩
      · rw [hword]
        exact List.cons_ne_nil _ _
      · rw [hword]
        intro d hd
        rcases List.mem_cons.mp hd with rfl | hd
        · exact hc
        · exact mem_takeWhile hd
    · split
      · exact Token.apt_of_kind (by rintro ⟨⟩) (by rintro ⟨⟩)
      · exact munchSign_apt c cs

theorem bareTokens_apt (cs : List Char) : ∀ t ∈ bareTokens cs, t.Apt := by
  fun_induction bareTokens cs with
  | case1 => exact List.forall_mem_nil _
  | case2 c cs hgap ih => exact ih
  | case3 c cs hgap ih =>
      intro t ht
      rcases List.mem_cons.mp ht with rfl | ht
      · exact Lexeme.munch_apt c cs
      · exact ih t ht

theorem tokens_apt (source : String) : ∀ t ∈ tokens source, t.Apt := by
  intro t ht
  have hmem : t.map (fun _ => ()) ∈ bareTokens source.toList := by
    rw [← tokens_bare]
    exact List.mem_map_of_mem ht
  exact (Token.apt_map _ t).mp (bareTokens_apt _ _ hmem)

end MonkeyLang
