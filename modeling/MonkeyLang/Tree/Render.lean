import MonkeyLang.Tree.Basic

/-!
# The text of a tree

Each tree has one rendering.  Every operator application stands in
parentheses, so that no precedence is needed to read it back, and statements
are separated by semicolons.  Annotations do not show.
-/

namespace MonkeyLang

/-- A list of texts with `", "` between them. -/
def commaSeparated (texts : List String) : String :=
  String.intercalate ", " texts

/-- A list of statements with `"; "` between them. -/
def semicolonSeparated (texts : List String) : String :=
  String.intercalate "; " texts

/-- The text of a block whose statements have the given texts. -/
def bracedStatements (texts : List String) : String :=
  if texts.isEmpty then "\x7b \x7d" else "\x7b " ++ semicolonSeparated texts ++ " \x7d"

mutual

/-- The text of an expression. -/
def Expr.render {α : Type} : Expr α → String
  | .ident id => id.name
  | .int _ n => n.toInt.repr
  | .str _ s => "\"" ++ s ++ "\""
  | .bool _ b => if b then "true" else "false"
  | .unary _ op r => "(" ++ op.sign ++ r.render ++ ")"
  | .binary _ op l r => "(" ++ l.render ++ " " ++ op.sign ++ " " ++ r.render ++ ")"
  | .assign _ x v => "(" ++ x.name ++ " = " ++ v.render ++ ")"
  | .cond _ c b alt => "if " ++ c.render ++ " " ++ b.render ++ Block.renderElse alt
  | .loop _ c b => "while " ++ c.render ++ " " ++ b.render
  | .func _ ps b => "func(" ++ commaSeparated (ps.map (·.name)) ++ ") " ++ b.render
  | .call _ e es => e.render ++ "(" ++ commaSeparated (Expr.renderList es) ++ ")"
  | .array _ es => "[" ++ commaSeparated (Expr.renderList es) ++ "]"
  | .index _ l i => "(" ++ l.render ++ "[" ++ i.render ++ "])"
  | .hash _ ps => "\x7b" ++ commaSeparated (Expr.renderPairs ps) ++ "\x7d"

/-- The texts of some expressions. -/
def Expr.renderList {α : Type} : List (Expr α) → List String
  | [] => []
  | e :: es => e.render :: Expr.renderList es

/-- The texts of some pairs of key and value. -/
def Expr.renderPairs {α : Type} : List (Expr α × Expr α) → List String
  | [] => []
  | (k, v) :: ps => (k.render ++ ": " ++ v.render) :: Expr.renderPairs ps

/-- The text of a statement. -/
def Stmt.render {α : Type} : Stmt α → String
  | .declare k _ x v => k.word ++ " " ++ x.name ++ " = " ++ v.render
  | .ret _ v => "return " ++ v.render
  | .expr _ v => v.render

/-- The texts of some statements. -/
def Stmt.renderList {α : Type} : List (Stmt α) → List String
  | [] => []
  | s :: ss => s.render :: Stmt.renderList ss

/-- The text of a block. -/
def Block.render {α : Type} : Block α → String
  | .mk _ ss => bracedStatements (Stmt.renderList ss)

/-- The text of the alternative of a conditional, if there is one. -/
def Block.renderElse {α : Type} : Option (Block α) → String
  | none => ""
  | some b => " else " ++ b.render

end

section

variable {α : Type}

theorem Expr.renderList_eq (es : List (Expr α)) :
    Expr.renderList es = es.map Expr.render := by
  induction es with
  | nil => rfl
  | cons e es ih => simp [Expr.renderList, ih]

theorem Expr.renderPairs_eq (ps : List (Expr α × Expr α)) :
    Expr.renderPairs ps = ps.map fun p => p.1.render ++ ": " ++ p.2.render := by
  induction ps with
  | nil => rfl
  | cons p ps ih => simp [Expr.renderPairs, ih]

theorem Stmt.renderList_eq (ss : List (Stmt α)) :
    Stmt.renderList ss = ss.map Stmt.render := by
  induction ss with
  | nil => rfl
  | cons s ss ih => simp [Stmt.renderList, ih]

end

/-- The text of a program. -/
def Program.render {α : Type} (p : Program α) : String :=
  semicolonSeparated (Stmt.renderList p.statements)

end MonkeyLang
