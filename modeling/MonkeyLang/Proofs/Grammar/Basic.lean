import MonkeyLang.Reading.Tree

/-!
# The grammar of programs

The rules by which tokens make up programs.  The grammar is stratified: there
is a symbol for each level of operators, and operators of one level associate
to the left.  It knows nothing of the order in which tokens are read.

A derivation has the tokens that it covers and the tree that they stand for in
its type.  Parentheses around an expression leave no trace in the tree, so the
tree does not show which derivation it came from.
-/

namespace MonkeyLang

/-- The levels of operators between two operands, loosest first. -/
inductive OperatorLevel where
  | equality | comparison | or | xor | and | sum | product
  deriving DecidableEq, Repr

namespace BinaryOp

/-- The level of an operator between two operands. -/
def level : BinaryOp → OperatorLevel
  | equal | notEqual => .equality
  | less | greater | lessEqual | greaterEqual => .comparison
  | bitOr => .or
  | bitXor => .xor
  | bitAnd => .and
  | add | subtract => .sum
  | multiply | divide | modulo => .product

/-- The kind of token that an operator between two operands is written as. -/
def kind : BinaryOp → Kind
  | add => .plus
  | subtract => .minus
  | multiply => .star
  | divide => .slash
  | modulo => .percent
  | bitAnd => .ampersand
  | bitOr => .pipe
  | bitXor => .caret
  | equal => .equalEqual
  | notEqual => .bangEqual
  | less => .less
  | lessEqual => .lessEqual
  | greater => .greater
  | greaterEqual => .greaterEqual

end BinaryOp

/-- The kind of token that an operator before an operand is written as. -/
def UnaryOp.kind : UnaryOp → Kind
  | not => .bang
  | negate => .minus

/-- The kind of token that begins a declaration. -/
def BindingKind.kind : BindingKind → Kind
  | var => .kwVar
  | val => .kwVal

namespace Grammar

/-- The symbols for expressions, loosest first: each stands for some of the
expressions of the symbol before it. -/
inductive ExprSymbol where
  | expression | level (l : OperatorLevel) | unary | postfixed | primary | conditional
  deriving DecidableEq, Repr

/-- The symbol for the operands of the operators of a level. -/
def operandSymbol : OperatorLevel → ExprSymbol
  | .equality => .level .comparison
  | .comparison => .level .or
  | .or => .level .xor
  | .xor => .level .and
  | .and => .level .sum
  | .sum => .level .product
  | .product => .unary

/-- The symbols of the grammar.  A chain is what follows the first operand of a
level, and suffixes are what follows a primary expression; both go on with the
tree of what is before them. -/
inductive Symbol (π : Type) where
  | expr (x : ExprSymbol)
  | chain (l : OperatorLevel) (left : Expr (Token π))
  | suffixes (left : Expr (Token π))
  | target
  | name
  | pair
  | separated (item : Symbol π)
  | listOf (item : Symbol π)
  | block
  | alternative
  | statement
  | statements

/-- What a symbol stands for. -/
abbrev Symbol.Tree {π : Type} : Symbol π → Type
  | .expr _ | .chain _ _ | .suffixes _ => Expr (Token π)
  | .target | .name => Ident (Token π)
  | .pair => Expr (Token π) × Expr (Token π)
  | .separated item | .listOf item => List item.Tree
  | .block => Block (Token π)
  | .alternative => Option (Block (Token π))
  | .statement => Stmt (Token π)
  | .statements => List (Stmt (Token π))

/-- Whether tokens begin with one that would go on with a statement before
them. -/
def Resumes {π : Type} (ts : List (Token π)) : Prop :=
  ∃ t ∈ ts.head?, t.kind = .leftParen ∨ t.kind = .leftBracket ∨ t.kind = .minus

/-- The derivations of a symbol, by the tokens covered and the tree. -/
inductive Derivation {π : Type} : (s : Symbol π) → List (Token π) → s.Tree → Type where
  -- Expressions and operators.
  | assign {ts us : List (Token π)} {t : Token π} {x : Ident (Token π)} {e : Expr (Token π)}
      (target : Derivation .target ts x) (ht : t.kind = .equal)
      (value : Derivation (.expr .expression) us e) :
      Derivation (.expr .expression) (ts ++ t :: us) (.assign t x e)
  | operation {ts : List (Token π)} {e : Expr (Token π)}
      (d : Derivation (.expr (.level .equality)) ts e) : Derivation (.expr .expression) ts e
  | level {l : OperatorLevel} {ts us : List (Token π)} {left e : Expr (Token π)}
      (first : Derivation (.expr (operandSymbol l)) ts left)
      (more : Derivation (.chain l left) us e) : Derivation (.expr (.level l)) (ts ++ us) e
  | chainEnd {l : OperatorLevel} {e : Expr (Token π)} : Derivation (.chain l e) [] e
  | chainStep {l : OperatorLevel} {ts us : List (Token π)} {t : Token π} {op : BinaryOp}
      {left right e : Expr (Token π)} (ht : t.kind = op.kind) (hl : op.level = l)
      (operand : Derivation (.expr (operandSymbol l)) ts right)
      (more : Derivation (.chain l (.binary t op left right)) us e) :
      Derivation (.chain l left) (t :: (ts ++ us)) e
  | unaryStep {ts : List (Token π)} {t : Token π} {op : UnaryOp} {e : Expr (Token π)}
      (ht : t.kind = op.kind) (d : Derivation (.expr .unary) ts e) :
      Derivation (.expr .unary) (t :: ts) (.unary t op e)
  | unaryEnd {ts : List (Token π)} {e : Expr (Token π)}
      (d : Derivation (.expr .postfixed) ts e) : Derivation (.expr .unary) ts e
  | postfixed {ts us : List (Token π)} {left e : Expr (Token π)}
      (first : Derivation (.expr .primary) ts left)
      (more : Derivation (.suffixes left) us e) : Derivation (.expr .postfixed) (ts ++ us) e
  | suffixEnd {e : Expr (Token π)} : Derivation (.suffixes e) [] e
  | callStep {ts us : List (Token π)} {o c : Token π} {left e : Expr (Token π)}
      {es : List (Expr (Token π))} (ho : o.kind = .leftParen)
      (args : Derivation (.listOf (.expr .expression)) ts es) (hc : c.kind = .rightParen)
      (more : Derivation (.suffixes (.call o left es)) us e) :
      Derivation (.suffixes left) (o :: (ts ++ c :: us)) e
  | indexStep {ts us : List (Token π)} {o c : Token π} {left i e : Expr (Token π)}
      (ho : o.kind = .leftBracket) (index : Derivation (.expr .expression) ts i)
      (hc : c.kind = .rightBracket) (more : Derivation (.suffixes (.index o left i)) us e) :
      Derivation (.suffixes left) (o :: (ts ++ c :: us)) e
  -- Primary expressions.
  | ident {t : Token π} (ht : t.kind = .identifier) :
      Derivation (.expr .primary) [t] (.ident (Reading.identOf t))
  | int {t : Token π} {n : Int64} (ht : t.kind = .integer)
      (hn : Reading.integer? t.literal = some n) : Derivation (.expr .primary) [t] (.int t n)
  | str {t : Token π} (ht : t.kind = .string) :
      Derivation (.expr .primary) [t] (.str t t.literal)
  | yes {t : Token π} (ht : t.kind = .kwTrue) : Derivation (.expr .primary) [t] (.bool t true)
  | no {t : Token π} (ht : t.kind = .kwFalse) : Derivation (.expr .primary) [t] (.bool t false)
  | group {ts : List (Token π)} {o c : Token π} {e : Expr (Token π)} (ho : o.kind = .leftParen)
      (inner : Derivation (.expr .expression) ts e) (hc : c.kind = .rightParen) :
      Derivation (.expr .primary) (o :: (ts ++ [c])) e
  | choice {ts : List (Token π)} {e : Expr (Token π)}
      (d : Derivation (.expr .conditional) ts e) : Derivation (.expr .primary) ts e
  | loop {ts us : List (Token π)} {t : Token π} {c : Expr (Token π)} {b : Block (Token π)}
      (ht : t.kind = .kwWhile) (condition : Derivation (.expr .expression) ts c)
      (body : Derivation .block us b) :
      Derivation (.expr .primary) (t :: (ts ++ us)) (.loop t c b)
  | func {ts us : List (Token π)} {t o c : Token π} {ps : List (Ident (Token π))}
      {b : Block (Token π)} (ht : t.kind = .kwFunc) (ho : o.kind = .leftParen)
      (params : Derivation (.listOf .name) ts ps) (hc : c.kind = .rightParen)
      (body : Derivation .block us b) :
      Derivation (.expr .primary) (t :: o :: (ts ++ c :: us)) (.func t ps b)
  | array {ts : List (Token π)} {o c : Token π} {es : List (Expr (Token π))}
      (ho : o.kind = .leftBracket) (elements : Derivation (.listOf (.expr .expression)) ts es)
      (hc : c.kind = .rightBracket) :
      Derivation (.expr .primary) (o :: (ts ++ [c])) (.array o es)
  | hash {ts : List (Token π)} {o c : Token π} {ps : List (Expr (Token π) × Expr (Token π))}
      (ho : o.kind = .leftBrace) (pairs : Derivation (.listOf .pair) ts ps)
      (hc : c.kind = .rightBrace) :
      Derivation (.expr .primary) (o :: (ts ++ [c])) (.hash o ps)
  -- Conditionals and blocks.
  | conditional {ts us vs : List (Token π)} {t : Token π} {c : Expr (Token π)}
      {b : Block (Token π)} {alt : Option (Block (Token π))} (ht : t.kind = .kwIf)
      (condition : Derivation (.expr .expression) ts c) (consequence : Derivation .block us b)
      (alternative : Derivation .alternative vs alt) :
      Derivation (.expr .conditional) (t :: (ts ++ (us ++ vs))) (.cond t c b alt)
  | noElse : Derivation .alternative [] none
  | elseBlock {ts : List (Token π)} {t : Token π} {b : Block (Token π)} (ht : t.kind = .kwElse)
      (d : Derivation .block ts b) : Derivation .alternative (t :: ts) (some b)
  | elseIf {ts : List (Token π)} {t u : Token π} {e : Expr (Token π)} (ht : t.kind = .kwElse)
      (d : Derivation (.expr .conditional) (u :: ts) e) :
      Derivation .alternative (t :: u :: ts) (some (.mk u [.expr u e]))
  | block {ts : List (Token π)} {o c : Token π} {ss : List (Stmt (Token π))}
      (ho : o.kind = .leftBrace) (body : Derivation .statements ts ss)
      (hc : c.kind = .rightBrace) : Derivation .block (o :: (ts ++ [c])) (.mk o ss)
  -- Names, pairs and lists.
  | targetName {t : Token π} (ht : t.kind = .identifier) :
      Derivation .target [t] (Reading.identOf t)
  | targetGroup {ts : List (Token π)} {o c : Token π} {x : Ident (Token π)}
      (ho : o.kind = .leftParen) (inner : Derivation .target ts x) (hc : c.kind = .rightParen) :
      Derivation .target (o :: (ts ++ [c])) x
  | name {t : Token π} (ht : t.kind = .identifier) : Derivation .name [t] (Reading.identOf t)
  | pair {ts us : List (Token π)} {t : Token π} {k v : Expr (Token π)}
      (key : Derivation (.expr .expression) ts k) (ht : t.kind = .colon)
      (value : Derivation (.expr .expression) us v) : Derivation .pair (ts ++ t :: us) (k, v)
  | one {item : Symbol π} {ts : List (Token π)} {a : item.Tree} (d : Derivation item ts a) :
      Derivation (.separated item) ts [a]
  | more {item : Symbol π} {ts us : List (Token π)} {t : Token π} {a : item.Tree}
      {as : List item.Tree} (d : Derivation item ts a) (ht : t.kind = .comma)
      (rest : Derivation (.separated item) us as) :
      Derivation (.separated item) (ts ++ t :: us) (a :: as)
  | empty {item : Symbol π} : Derivation (.listOf item) [] []
  | items {item : Symbol π} {ts : List (Token π)} {as : List item.Tree}
      (d : Derivation (.separated item) ts as) : Derivation (.listOf item) ts as
  -- Statements.  One that is not ended by a semicolon must not run on into the next.
  | declare {ts : List (Token π)} {t u v : Token π} {kind : BindingKind} {e : Expr (Token π)}
      (ht : t.kind = kind.kind) (hu : u.kind = .identifier) (hv : v.kind = .equal)
      (value : Derivation (.expr .expression) ts e) :
      Derivation .statement (t :: u :: v :: ts) (.declare kind t (Reading.identOf u) e)
  | ret {ts : List (Token π)} {t : Token π} {e : Expr (Token π)} (ht : t.kind = .kwReturn)
      (value : Derivation (.expr .expression) ts e) : Derivation .statement (t :: ts) (.ret t e)
  | expr {ts : List (Token π)} {t : Token π} {e : Expr (Token π)}
      (d : Derivation (.expr .expression) (t :: ts) e) :
      Derivation .statement (t :: ts) (.expr t e)
  | noStatements : Derivation .statements [] []
  | ended {ts us : List (Token π)} {t : Token π} {s : Stmt (Token π)}
      {ss : List (Stmt (Token π))} (first : Derivation .statement ts s)
      (ht : t.kind = .semicolon) (rest : Derivation .statements us ss) :
      Derivation .statements (ts ++ t :: us) (s :: ss)
  | unended {ts us : List (Token π)} {s : Stmt (Token π)} {ss : List (Stmt (Token π))}
      (first : Derivation .statement ts s) (rest : Derivation .statements us ss)
      (hrest : ¬Resumes us) : Derivation .statements (ts ++ us) (s :: ss)

end Grammar

end MonkeyLang
