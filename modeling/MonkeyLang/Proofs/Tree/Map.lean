import MonkeyLang.Tree.Render

/-!
# Trees with other annotations

Changing annotations twice is changing them once, and the text of a tree does
not depend on them.
-/

namespace MonkeyLang

variable {α β γ : Type}

section

variable (f : α → β) (g : β → γ)

@[simp]
theorem Ident.map_map (x : Ident α) : (x.map f).map g = x.map (g ∘ f) := rfl

mutual

theorem Expr.map_map (e : Expr α) : (e.map f).map g = e.map (g ∘ f) := by
  cases e with
  | ident id => rfl
  | int | str | bool => rfl
  | unary t op r => simp [Expr.map, r.map_map]
  | binary t op l r => simp [Expr.map, l.map_map, r.map_map]
  | assign t x v => simp [Expr.map, v.map_map]
  | cond t c b alt => simp [Expr.map, c.map_map, b.map_map, Block.mapOption_map alt]
  | loop t c b => simp [Expr.map, c.map_map, b.map_map]
  | func t ps b => simp [Expr.map, b.map_map]
  | call t e es => simp [Expr.map, e.map_map, Expr.mapList_map es]
  | array t es => simp [Expr.map, Expr.mapList_map es]
  | index t l i => simp [Expr.map, l.map_map, i.map_map]
  | hash t ps => simp [Expr.map, Expr.mapPairs_map ps]

theorem Expr.mapList_map (es : List (Expr α)) :
    Expr.mapList g (Expr.mapList f es) = Expr.mapList (g ∘ f) es := by
  cases es with
  | nil => rfl
  | cons e es => simp [Expr.mapList, e.map_map, Expr.mapList_map es]

theorem Expr.mapPairs_map (ps : List (Expr α × Expr α)) :
    Expr.mapPairs g (Expr.mapPairs f ps) = Expr.mapPairs (g ∘ f) ps := by
  match ps with
  | [] => rfl
  | (k, v) :: ps => simp [Expr.mapPairs, k.map_map, v.map_map, Expr.mapPairs_map ps]

theorem Stmt.map_map (s : Stmt α) : (s.map f).map g = s.map (g ∘ f) := by
  cases s with
  | declare k t x v => simp [Stmt.map, v.map_map]
  | ret t v => simp [Stmt.map, v.map_map]
  | expr t v => simp [Stmt.map, v.map_map]

theorem Stmt.mapList_map (ss : List (Stmt α)) :
    Stmt.mapList g (Stmt.mapList f ss) = Stmt.mapList (g ∘ f) ss := by
  cases ss with
  | nil => rfl
  | cons s ss => simp [Stmt.mapList, s.map_map, Stmt.mapList_map ss]

theorem Block.map_map (b : Block α) : (b.map f).map g = b.map (g ∘ f) := by
  cases b with
  | mk t ss => simp [Block.map, Stmt.mapList_map ss]

theorem Block.mapOption_map (b : Option (Block α)) :
    Block.mapOption g (Block.mapOption f b) = Block.mapOption (g ∘ f) b := by
  cases b with
  | none => rfl
  | some b => simp [Block.mapOption, b.map_map]

end

mutual

@[simp]
theorem Expr.render_map (e : Expr α) : (e.map f).render = e.render := by
  cases e with
  | ident id => rfl
  | int | str | bool => rfl
  | unary t op r => simp [Expr.map, Expr.render, r.render_map]
  | binary t op l r => simp [Expr.map, Expr.render, l.render_map, r.render_map]
  | assign t x v => simp [Expr.map, Expr.render, v.render_map, Ident.map]
  | cond t c b alt =>
      simp [Expr.map, Expr.render, c.render_map, b.render_map, Block.renderElse_map alt]
  | loop t c b => simp [Expr.map, Expr.render, c.render_map, b.render_map]
  | func t ps b => simp [Expr.map, Expr.render, b.render_map, Ident.map, Function.comp_def]
  | call t e es => simp [Expr.map, Expr.render, e.render_map, Expr.renderList_map es]
  | array t es => simp [Expr.map, Expr.render, Expr.renderList_map es]
  | index t l i => simp [Expr.map, Expr.render, l.render_map, i.render_map]
  | hash t ps => simp [Expr.map, Expr.render, Expr.renderPairs_map ps]

theorem Expr.renderList_map (es : List (Expr α)) :
    Expr.renderList (Expr.mapList f es) = Expr.renderList es := by
  cases es with
  | nil => rfl
  | cons e es => simp [Expr.mapList, Expr.renderList, e.render_map, Expr.renderList_map es]

theorem Expr.renderPairs_map (ps : List (Expr α × Expr α)) :
    Expr.renderPairs (Expr.mapPairs f ps) = Expr.renderPairs ps := by
  match ps with
  | [] => rfl
  | (k, v) :: ps =>
      simp [Expr.mapPairs, Expr.renderPairs, k.render_map, v.render_map, Expr.renderPairs_map ps]

@[simp]
theorem Stmt.render_map (s : Stmt α) : (s.map f).render = s.render := by
  cases s with
  | declare k t x v => simp [Stmt.map, Stmt.render, v.render_map, Ident.map]
  | ret t v => simp [Stmt.map, Stmt.render, v.render_map]
  | expr t v => simp [Stmt.map, Stmt.render, v.render_map]

theorem Stmt.renderList_map (ss : List (Stmt α)) :
    Stmt.renderList (Stmt.mapList f ss) = Stmt.renderList ss := by
  cases ss with
  | nil => rfl
  | cons s ss => simp [Stmt.mapList, Stmt.renderList, s.render_map, Stmt.renderList_map ss]

@[simp]
theorem Block.render_map (b : Block α) : (b.map f).render = b.render := by
  cases b with
  | mk t ss => simp [Block.map, Block.render, Stmt.renderList_map ss]

theorem Block.renderElse_map (b : Option (Block α)) :
    Block.renderElse (Block.mapOption f b) = Block.renderElse b := by
  cases b with
  | none => rfl
  | some b => simp [Block.mapOption, Block.renderElse, b.render_map]

end

@[simp]
theorem Program.render_map (p : Program α) : (p.map f).render = p.render := by
  rw [Program.render, Program.map, Stmt.renderList_map]
  rfl

end

/-! ## The annotations as they are -/

mutual

@[simp]
theorem Expr.map_id (e : Expr α) : e.map id = e := by
  cases e with
  | ident id => rfl
  | int | str | bool => rfl
  | unary t op r => simp [Expr.map, r.map_id]
  | binary t op l r => simp [Expr.map, l.map_id, r.map_id]
  | assign t x v => simp [Expr.map, v.map_id, Ident.map]
  | cond t c b alt => simp [Expr.map, c.map_id, b.map_id, Block.mapOption_id alt]
  | loop t c b => simp [Expr.map, c.map_id, b.map_id]
  | func t ps b => simp [Expr.map, b.map_id, Ident.map]
  | call t e es => simp [Expr.map, e.map_id, Expr.mapList_id es]
  | array t es => simp [Expr.map, Expr.mapList_id es]
  | index t l i => simp [Expr.map, l.map_id, i.map_id]
  | hash t ps => simp [Expr.map, Expr.mapPairs_id ps]

theorem Expr.mapList_id (es : List (Expr α)) : Expr.mapList id es = es := by
  cases es with
  | nil => rfl
  | cons e es => simp [Expr.mapList, e.map_id, Expr.mapList_id es]

theorem Expr.mapPairs_id (ps : List (Expr α × Expr α)) : Expr.mapPairs id ps = ps := by
  match ps with
  | [] => rfl
  | (k, v) :: ps => simp [Expr.mapPairs, k.map_id, v.map_id, Expr.mapPairs_id ps]

theorem Stmt.map_id (s : Stmt α) : s.map id = s := by
  cases s with
  | declare k t x v => simp [Stmt.map, v.map_id, Ident.map]
  | ret t v => simp [Stmt.map, v.map_id]
  | expr t v => simp [Stmt.map, v.map_id]

theorem Stmt.mapList_id (ss : List (Stmt α)) : Stmt.mapList id ss = ss := by
  cases ss with
  | nil => rfl
  | cons s ss => simp [Stmt.mapList, s.map_id, Stmt.mapList_id ss]

@[simp]
theorem Block.map_id (b : Block α) : b.map id = b := by
  cases b with
  | mk t ss => simp [Block.map, Stmt.mapList_id ss]

theorem Block.mapOption_id (b : Option (Block α)) : Block.mapOption id b = b := by
  cases b with
  | none => rfl
  | some b => simp [Block.mapOption, b.map_id]

end

theorem Program.map_id (p : Program α) : p.map id = p :=
  congrArg Program.mk (Stmt.mapList_id p.statements)

theorem Program.render_erase (p : Program α) : p.erase.render = p.render :=
  p.render_map _

/-- Programs that are the same without annotations have the same text. -/
theorem Program.render_eq_of_erase {p : Program α} {q : Program β} (h : p.erase = q.erase) :
    p.render = q.render := by
  rw [← p.render_erase, h, q.render_erase]

end MonkeyLang
