import MonkeyLang.Proofs.Grammar.Basic

/-!
# How the tokens in a tree are laid out

The nodes of a tree that was read from a text hold tokens of the text.  These fit their nodes, and
the tree shows their order: the token of an operator between operands, of an assignment, a call or
an index stands behind all tokens of what is on its left, and any other token before all tokens of
what is below its node.

No token is in two places, but for two.  The token of an expression used as a statement is the
first of the expression, unless this is a parenthesis, which no expression holds.  And what stands
for `else if` is a block with a conditional in it, of which the block, its statement and the
conditional all have the one `if`.
-/

namespace MonkeyLang

variable {π : Type}

/-- Whether the token of a name is the identifier that it is written as. -/
structure Ident.Fits (x : Ident (Token π)) : Prop where
  kind : x.tok.kind = .identifier
  literal : x.tok.literal = x.name

/-- The kind of token that a truth value is written as. -/
def boolKind (b : Bool) : Kind :=
  if b then .kwTrue else .kwFalse

mutual

/-- The tokens in an expression fit their nodes; they are `ts`, in the order of the text. -/
inductive Expr.LaidOut : Expr (Token π) → List (Token π) → Prop
  | ident {x : Ident (Token π)} (hx : x.Fits) : Expr.LaidOut (.ident x) [x.tok]
  | int {t : Token π} {n : Int64} (ht : t.kind = .integer)
      (hn : n.toInt = Nat.ofDigitChars 10 t.literal.toList 0) : Expr.LaidOut (.int t n) [t]
  | str {t : Token π} (ht : t.kind = .string) : Expr.LaidOut (.str t t.literal) [t]
  | bool {t : Token π} {b : Bool} (ht : t.kind = boolKind b) : Expr.LaidOut (.bool t b) [t]
  | unary {t : Token π} {op : UnaryOp} {r : Expr (Token π)} {us : List (Token π)}
      (ht : t.kind = op.kind) (hr : r.LaidOut us) : Expr.LaidOut (.unary t op r) (t :: us)
  | binary {t : Token π} {op : BinaryOp} {l r : Expr (Token π)} {us vs : List (Token π)}
      (ht : t.kind = op.kind) (hl : l.LaidOut us) (hr : r.LaidOut vs) :
      Expr.LaidOut (.binary t op l r) (us ++ t :: vs)
  | assign {t : Token π} {x : Ident (Token π)} {v : Expr (Token π)} {vs : List (Token π)}
      (ht : t.kind = .equal) (hx : x.Fits) (hv : v.LaidOut vs) :
      Expr.LaidOut (.assign t x v) (x.tok :: t :: vs)
  | cond {t : Token π} {c : Expr (Token π)} {b : Block (Token π)}
      {alt : Option (Block (Token π))} {us vs ws : List (Token π)} (ht : t.kind = .kwIf)
      (hc : c.LaidOut us) (hb : b.LaidOut vs) (halt : Block.AlternativeLaidOut alt ws) :
      Expr.LaidOut (.cond t c b alt) (t :: (us ++ (vs ++ ws)))
  | loop {t : Token π} {c : Expr (Token π)} {b : Block (Token π)} {us vs : List (Token π)}
      (ht : t.kind = .kwWhile) (hc : c.LaidOut us) (hb : b.LaidOut vs) :
      Expr.LaidOut (.loop t c b) (t :: (us ++ vs))
  | func {t : Token π} {params : List (Ident (Token π))} {b : Block (Token π)}
      {us : List (Token π)} (ht : t.kind = .kwFunc) (hparams : ∀ x ∈ params, x.Fits)
      (hb : b.LaidOut us) : Expr.LaidOut (.func t params b) (t :: (params.map Ident.tok ++ us))
  | call {t : Token π} {e : Expr (Token π)} {args : List (Expr (Token π))}
      {us vs : List (Token π)} (ht : t.kind = .leftParen) (he : e.LaidOut us)
      (hargs : Expr.ListLaidOut args vs) : Expr.LaidOut (.call t e args) (us ++ t :: vs)
  | array {t : Token π} {es : List (Expr (Token π))} {us : List (Token π)}
      (ht : t.kind = .leftBracket) (hes : Expr.ListLaidOut es us) :
      Expr.LaidOut (.array t es) (t :: us)
  | index {t : Token π} {l i : Expr (Token π)} {us vs : List (Token π)}
      (ht : t.kind = .leftBracket) (hl : l.LaidOut us) (hi : i.LaidOut vs) :
      Expr.LaidOut (.index t l i) (us ++ t :: vs)
  | hash {t : Token π} {ps : List (Expr (Token π) × Expr (Token π))} {us : List (Token π)}
      (ht : t.kind = .leftBrace) (hps : Expr.PairsLaidOut ps us) :
      Expr.LaidOut (.hash t ps) (t :: us)

/-- The tokens in some expressions fit their nodes; they are `ts`, in the order of the text. -/
inductive Expr.ListLaidOut : List (Expr (Token π)) → List (Token π) → Prop
  | nil : Expr.ListLaidOut [] []
  | cons {e : Expr (Token π)} {es : List (Expr (Token π))} {us vs : List (Token π)}
      (he : e.LaidOut us) (hes : Expr.ListLaidOut es vs) : Expr.ListLaidOut (e :: es) (us ++ vs)

/-- The tokens in some pairs of expressions fit their nodes; they are `ts`, in the order of the
text. -/
inductive Expr.PairsLaidOut : List (Expr (Token π) × Expr (Token π)) → List (Token π) → Prop
  | nil : Expr.PairsLaidOut [] []
  | cons {k v : Expr (Token π)} {ps : List (Expr (Token π) × Expr (Token π))}
      {us vs ws : List (Token π)} (hk : k.LaidOut us) (hv : v.LaidOut vs)
      (hps : Expr.PairsLaidOut ps ws) : Expr.PairsLaidOut ((k, v) :: ps) (us ++ (vs ++ ws))

/-- The tokens in a statement fit their nodes; they are `ts`, in the order of the text. -/
inductive Stmt.LaidOut : Stmt (Token π) → List (Token π) → Prop
  | declare {kind : BindingKind} {t : Token π} {x : Ident (Token π)} {v : Expr (Token π)}
      {us : List (Token π)} (ht : t.kind = kind.kind) (hx : x.Fits) (hv : v.LaidOut us) :
      Stmt.LaidOut (.declare kind t x v) (t :: x.tok :: us)
  | ret {t : Token π} {v : Expr (Token π)} {us : List (Token π)} (ht : t.kind = .kwReturn)
      (hv : v.LaidOut us) : Stmt.LaidOut (.ret t v) (t :: us)
  /-- The token of the statement is the first of the expression. -/
  | expr {t : Token π} {e : Expr (Token π)} {us : List (Token π)} (he : e.LaidOut (t :: us)) :
      Stmt.LaidOut (.expr t e) (t :: us)
  /-- The token of the statement is a parenthesis before the expression. -/
  | group {t : Token π} {e : Expr (Token π)} {us : List (Token π)} (ht : t.kind = .leftParen)
      (he : e.LaidOut us) : Stmt.LaidOut (.expr t e) (t :: us)

/-- The tokens in some statements fit their nodes; they are `ts`, in the order of the text. -/
inductive Stmt.ListLaidOut : List (Stmt (Token π)) → List (Token π) → Prop
  | nil : Stmt.ListLaidOut [] []
  | cons {s : Stmt (Token π)} {ss : List (Stmt (Token π))} {us vs : List (Token π)}
      (hs : s.LaidOut us) (hss : Stmt.ListLaidOut ss vs) : Stmt.ListLaidOut (s :: ss) (us ++ vs)

/-- The tokens in a block in braces fit their nodes; they are `ts`, in the order of the text. -/
inductive Block.LaidOut : Block (Token π) → List (Token π) → Prop
  | mk {t : Token π} {ss : List (Stmt (Token π))} {us : List (Token π)} (ht : t.kind = .leftBrace)
      (hss : Stmt.ListLaidOut ss us) : Block.LaidOut (.mk t ss) (t :: us)

/-- The tokens in an alternative fit their nodes; they are `ts`, in the order of the text. -/
inductive Block.AlternativeLaidOut : Option (Block (Token π)) → List (Token π) → Prop
  | none : Block.AlternativeLaidOut none []
  | block {b : Block (Token π)} {us : List (Token π)} (hb : b.LaidOut us) :
      Block.AlternativeLaidOut (some b) us
  /-- The block, its statement and the conditional have the same token. -/
  | elseIf {t : Token π} {c : Expr (Token π)} {b : Block (Token π)}
      {alt : Option (Block (Token π))} {us : List (Token π)}
      (he : (Expr.cond t c b alt).LaidOut (t :: us)) :
      Block.AlternativeLaidOut (some (.mk t [.expr t (.cond t c b alt)])) (t :: us)

end

/-! ## Expressions as statements -/

section

variable {t : Token π} {left e : Expr (Token π)} {us vs : List (Token π)}

/-- The first token is also in the statement; so what there is in the expression is all of the
tokens, or all but the first. -/
theorem Stmt.LaidOut.value (h : (Stmt.expr t e).LaidOut us) :
    ∃ vs, e.LaidOut vs ∧ vs.Sublist us := by
  cases h with
  | expr he => exact ⟨_, he, List.Sublist.refl _⟩
  | group ht he => exact ⟨_, he, List.sublist_cons_self _ _⟩

/-- What makes an expression the left part of a larger one, does so in the statement. -/
theorem Stmt.LaidOut.extend (h : (Stmt.expr t left).LaidOut us)
    (he : ∀ ls, left.LaidOut ls → e.LaidOut (ls ++ vs)) : (Stmt.expr t e).LaidOut (us ++ vs) := by
  cases h with
  | expr hleft => exact .expr (he _ hleft)
  | group ht hleft => exact .group ht (he _ hleft)

end

/-! ## All tokens of a tree -/

section

variable {β : Type} {f g : Token π → β}

/-- Whether two functions agree on some tokens. -/
def AgreeOn (f g : Token π → β) (ts : List (Token π)) : Prop :=
  ∀ t ∈ ts, f t = g t

theorem agreeOn_cons {t : Token π} {ts : List (Token π)} :
    AgreeOn f g (t :: ts) ↔ f t = g t ∧ AgreeOn f g ts :=
  List.forall_mem_cons

theorem agreeOn_append {us vs : List (Token π)} :
    AgreeOn f g (us ++ vs) ↔ AgreeOn f g us ∧ AgreeOn f g vs :=
  List.forall_mem_append

theorem Ident.map_congr {x : Ident (Token π)} (h : f x.tok = g x.tok) : x.map f = x.map g := by
  rw [Ident.map, Ident.map, h]

mutual

/-- The tokens that are laid out are all that there are in an expression. -/
theorem Expr.LaidOut.map_congr {ts : List (Token π)} {e : Expr (Token π)} (h : e.LaidOut ts)
    (hfg : AgreeOn f g ts) : e.map f = e.map g := by
  cases h with
  | ident hx => rw [Expr.map, Expr.map, Ident.map_congr (hfg _ List.mem_cons_self)]
  | int | str | bool => rw [Expr.map, Expr.map, hfg _ List.mem_cons_self]
  | unary ht hr =>
      obtain ⟨hft, hfr⟩ := agreeOn_cons.mp hfg
      have hr := Expr.LaidOut.map_congr hr hfr
      rw [Expr.map, Expr.map, hft, hr]
  | binary ht hl hr =>
      obtain ⟨hfl, hfr⟩ := agreeOn_append.mp hfg
      obtain ⟨hft, hfr⟩ := agreeOn_cons.mp hfr
      have hl := Expr.LaidOut.map_congr hl hfl
      have hr := Expr.LaidOut.map_congr hr hfr
      rw [Expr.map, Expr.map, hft, hl, hr]
  | assign ht hx hv =>
      obtain ⟨hfx, hfv⟩ := agreeOn_cons.mp hfg
      obtain ⟨hft, hfv⟩ := agreeOn_cons.mp hfv
      have hv := Expr.LaidOut.map_congr hv hfv
      rw [Expr.map, Expr.map, hft, Ident.map_congr hfx, hv]
  | cond ht hc hb halt =>
      obtain ⟨hft, hfg⟩ := agreeOn_cons.mp hfg
      obtain ⟨hfc, hfg⟩ := agreeOn_append.mp hfg
      obtain ⟨hfb, hfalt⟩ := agreeOn_append.mp hfg
      have hc := Expr.LaidOut.map_congr hc hfc
      have hb := Block.LaidOut.map_congr hb hfb
      have halt := Block.AlternativeLaidOut.map_congr halt hfalt
      rw [Expr.map, Expr.map, hft, hc, hb, halt]
  | loop ht hc hb =>
      obtain ⟨hft, hfg⟩ := agreeOn_cons.mp hfg
      obtain ⟨hfc, hfb⟩ := agreeOn_append.mp hfg
      have hc := Expr.LaidOut.map_congr hc hfc
      have hb := Block.LaidOut.map_congr hb hfb
      rw [Expr.map, Expr.map, hft, hc, hb]
  | @func t params b us ht hparams hb =>
      obtain ⟨hft, hfg⟩ := agreeOn_cons.mp hfg
      obtain ⟨hfparams, hfb⟩ := agreeOn_append.mp hfg
      have hmap : params.map (·.map f) = params.map (·.map g) :=
        List.map_congr_left fun x hx => Ident.map_congr (hfparams _ (List.mem_map_of_mem hx))
      have hb := Block.LaidOut.map_congr hb hfb
      rw [Expr.map, Expr.map, hft, hmap, hb]
  | call ht he hargs =>
      obtain ⟨hfe, hfargs⟩ := agreeOn_append.mp hfg
      obtain ⟨hft, hfargs⟩ := agreeOn_cons.mp hfargs
      have he := Expr.LaidOut.map_congr he hfe
      have hargs := Expr.ListLaidOut.map_congr hargs hfargs
      rw [Expr.map, Expr.map, hft, he, hargs]
  | array ht hes =>
      obtain ⟨hft, hfes⟩ := agreeOn_cons.mp hfg
      have hes := Expr.ListLaidOut.map_congr hes hfes
      rw [Expr.map, Expr.map, hft, hes]
  | index ht hl hi =>
      obtain ⟨hfl, hfi⟩ := agreeOn_append.mp hfg
      obtain ⟨hft, hfi⟩ := agreeOn_cons.mp hfi
      have hl := Expr.LaidOut.map_congr hl hfl
      have hi := Expr.LaidOut.map_congr hi hfi
      rw [Expr.map, Expr.map, hft, hl, hi]
  | hash ht hps =>
      obtain ⟨hft, hfps⟩ := agreeOn_cons.mp hfg
      have hps := Expr.PairsLaidOut.map_congr hps hfps
      rw [Expr.map, Expr.map, hft, hps]

/-- The tokens that are laid out are all that there are in some expressions. -/
theorem Expr.ListLaidOut.map_congr {ts : List (Token π)} {es : List (Expr (Token π))}
    (h : Expr.ListLaidOut es ts) (hfg : AgreeOn f g ts) :
    Expr.mapList f es = Expr.mapList g es := by
  cases h with
  | nil => rfl
  | cons he hes =>
      obtain ⟨hfe, hfes⟩ := agreeOn_append.mp hfg
      have he := Expr.LaidOut.map_congr he hfe
      have hes := Expr.ListLaidOut.map_congr hes hfes
      rw [Expr.mapList, Expr.mapList, he, hes]

/-- The tokens that are laid out are all that there are in some pairs of expressions. -/
theorem Expr.PairsLaidOut.map_congr {ts : List (Token π)}
    {ps : List (Expr (Token π) × Expr (Token π))} (h : Expr.PairsLaidOut ps ts)
    (hfg : AgreeOn f g ts) :
    Expr.mapPairs f ps = Expr.mapPairs g ps := by
  cases h with
  | nil => rfl
  | cons hk hv hps =>
      obtain ⟨hfk, hfg⟩ := agreeOn_append.mp hfg
      obtain ⟨hfv, hfps⟩ := agreeOn_append.mp hfg
      have hk := Expr.LaidOut.map_congr hk hfk
      have hv := Expr.LaidOut.map_congr hv hfv
      have hps := Expr.PairsLaidOut.map_congr hps hfps
      rw [Expr.mapPairs, Expr.mapPairs, hk, hv, hps]

/-- The tokens that are laid out are all that there are in a statement. -/
theorem Stmt.LaidOut.map_congr {ts : List (Token π)} {s : Stmt (Token π)} (h : s.LaidOut ts)
    (hfg : AgreeOn f g ts) : s.map f = s.map g := by
  cases h with
  | declare ht hx hv =>
      obtain ⟨hft, hfg⟩ := agreeOn_cons.mp hfg
      obtain ⟨hfx, hfv⟩ := agreeOn_cons.mp hfg
      have hv := Expr.LaidOut.map_congr hv hfv
      rw [Stmt.map, Stmt.map, hft, Ident.map_congr hfx, hv]
  | ret ht hv =>
      obtain ⟨hft, hfv⟩ := agreeOn_cons.mp hfg
      have hv := Expr.LaidOut.map_congr hv hfv
      rw [Stmt.map, Stmt.map, hft, hv]
  | expr he =>
      have he := Expr.LaidOut.map_congr he hfg
      rw [Stmt.map, Stmt.map, hfg _ List.mem_cons_self, he]
  | group ht he =>
      obtain ⟨hft, hfe⟩ := agreeOn_cons.mp hfg
      have he := Expr.LaidOut.map_congr he hfe
      rw [Stmt.map, Stmt.map, hft, he]

/-- The tokens that are laid out are all that there are in some statements. -/
theorem Stmt.ListLaidOut.map_congr {ts : List (Token π)} {ss : List (Stmt (Token π))}
    (h : Stmt.ListLaidOut ss ts) (hfg : AgreeOn f g ts) :
    Stmt.mapList f ss = Stmt.mapList g ss := by
  cases h with
  | nil => rfl
  | cons hs hss =>
      obtain ⟨hfs, hfss⟩ := agreeOn_append.mp hfg
      have hs := Stmt.LaidOut.map_congr hs hfs
      have hss := Stmt.ListLaidOut.map_congr hss hfss
      rw [Stmt.mapList, Stmt.mapList, hs, hss]

/-- The tokens that are laid out are all that there are in a block. -/
theorem Block.LaidOut.map_congr {ts : List (Token π)} {b : Block (Token π)} (h : b.LaidOut ts)
    (hfg : AgreeOn f g ts) : b.map f = b.map g := by
  cases h with
  | mk ht hss =>
      obtain ⟨hft, hfss⟩ := agreeOn_cons.mp hfg
      have hss := Stmt.ListLaidOut.map_congr hss hfss
      rw [Block.map, Block.map, hft, hss]

/-- The tokens that are laid out are all that there are in an alternative. -/
theorem Block.AlternativeLaidOut.map_congr {ts : List (Token π)} {alt : Option (Block (Token π))}
    (h : Block.AlternativeLaidOut alt ts) (hfg : AgreeOn f g ts) :
    Block.mapOption f alt = Block.mapOption g alt := by
  cases h with
  | none => rfl
  | block hb => rw [Block.mapOption, Block.mapOption, Block.LaidOut.map_congr hb hfg]
  | elseIf he =>
      have hft := hfg _ List.mem_cons_self
      have he := Expr.LaidOut.map_congr he hfg
      simp only [Block.mapOption, Block.map, Stmt.mapList, Stmt.map, hft, he]

end

end

end MonkeyLang
