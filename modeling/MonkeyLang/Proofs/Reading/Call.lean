import Mathlib.Logic.Relation
import MonkeyLang.Proofs.Reading.Outcomes

/-!
# What parsers call

A call stands for one of the parsers and the tokens that it is given; each round of a
loop over tokens is a call of its own.  `Call.Makes` says which calls a call makes, in
the order in which they are written in the parsers, and what errors it has found by then:
a call is made when the calls before it have built what they should.

A call never goes back to tokens that were passed over, and as long as it stays at the
same token it calls only parsers of lower and lower rank.  So wherever a parser comes
back to itself, it has passed over a token.
-/

namespace MonkeyLang

/-- What has come of reading tokens: what was built, if anything, the tokens that are left,
and the errors that were found. -/
structure Answer (π α : Type) where
  result : Option α
  rest : List (Token π)
  errors : List (ParseError π)

namespace Reply

variable {π α : Type} {n : Nat}

/-- A reply without its bound. -/
def answer (x : Reply π α n) : Answer π α :=
  ⟨x.result, x.rest, x.errors⟩

/-- A reply with the result `a` that leaves the tokens `rest`, perhaps with errors. -/
structure Yields (x : Reply π α n) (a : α) (rest : List (Token π)) : Prop where
  result : x.result = some a
  rest : x.rest = rest

theorem Yields.length_le {x : Reply π α n} {a : α} {rest : List (Token π)} (h : x.Yields a rest) :
    rest.length ≤ n :=
  h.rest ▸ x.length_le

/-- What goes on with a result and yields something has gone on with what was yielded. -/
theorem Yields.of_andThen {β : Type} {m : Nat} {x : Reply π α n} {h : n ≤ m}
    {f : α → (rest : List (Token π)) → rest.length ≤ n → Reply π β m} {b : β}
    {rest : List (Token π)} (hy : (x.andThen h f).Yields b rest) :
    ∃ a r hr, x.Yields a r ∧ (f a r hr).Yields b rest := by
  obtain ⟨result, r, errors, hle⟩ := x
  cases result with
  | none => cases hy.result
  | some a => exact ⟨a, r, hle, ⟨rfl, rfl⟩, hy.result, hy.rest⟩

theorem Yields.of_recover {x : Reply π α n} {a : α} {rest : List (Token π)}
    {skip : List (Token π) → List (Token π)} {hskip : ∀ ts, (skip ts).length ≤ ts.length}
    (h : (x.recover skip hskip).Yields a rest) : x.Yields a rest := by
  obtain ⟨result, rest', errors, hle⟩ := x
  cases result with
  | none => cases h.result
  | some b => exact ⟨h.result, h.rest⟩

end Reply

namespace Reading

variable {π : Type}

/-- The parsers.  A round of a loop over tokens counts as one of its own. -/
inductive Parser where
  | expr | operand | climb | extend | conditional | alternative
  | block | blockStatements | statement | declaration | skipStatement
  | params | paramItems | exprList | exprItems | moreExprItems
  | pairs | pairItems | morePairItems | statements
  deriving DecidableEq, Repr

/-- The rank of a parser: how many others can be called in turn at the same token. -/
@[simp, grind =]
def Parser.rank : Parser → Nat
  | block => 5
  | statements | blockStatements | exprList | pairs => 4
  | statement | exprItems | pairItems => 3
  | expr => 2
  | operand | climb | params => 1
  | extend | conditional | alternative | declaration | skipStatement
  | paramItems | moreExprItems | morePairItems => 0

theorem Parser.rank_le (p : Parser) : p.rank ≤ 5 := by
  cases p <;> decide

/-- What a parser can be asked to do. -/
inductive Call (π : Type) where
  | expr (p : Precedence) (ts : List (Token π))
  | operand (t : Token π) (r : List (Token π))
  | climb (p : Precedence) (left : Expr (Token π)) (ts : List (Token π))
  | extend (left : Expr (Token π)) (c : Continuation) (t : Token π) (r : List (Token π))
  | conditional (t : Token π) (r : List (Token π))
  | alternative (ts : List (Token π))
  | block (brace : Token π) (ts : List (Token π))
  | blockStatements (ts : List (Token π))
  | statement (t : Token π) (r : List (Token π))
  | declaration (kind : BindingKind) (t : Token π) (r : List (Token π))
  | skipStatement (ts : List (Token π))
  | params (ts : List (Token π))
  | paramItems (ts : List (Token π))
  | exprList (close : Kind) (ts : List (Token π))
  | exprItems (close : Kind) (ts : List (Token π))
  | moreExprItems (close : Kind) (ts : List (Token π))
  | pairs (ts : List (Token π))
  | pairItems (ts : List (Token π))
  | morePairItems (ts : List (Token π))
  | statements (ts : List (Token π))

namespace Call

/-- What a call builds. -/
abbrev Result : Call π → Type
  | expr _ _ | operand _ _ | climb _ _ _ | extend _ _ _ _ | conditional _ _ => Expr (Token π)
  | alternative _ => Option (Block (Token π))
  | block _ _ => Block (Token π)
  | statement _ _ | declaration _ _ _ => Stmt (Token π)
  | blockStatements _ | statements _ => List (Stmt (Token π))
  | skipStatement _ => Unit
  | params _ | paramItems _ => List (Ident (Token π))
  | exprList _ _ | exprItems _ _ | moreExprItems _ _ => List (Expr (Token π))
  | pairs _ | pairItems _ | morePairItems _ => List (Expr (Token π) × Expr (Token π))

/-- The tokens that a call is given, the one in hand first. -/
@[simp, grind =]
def tokens : Call π → List (Token π)
  | operand t r | extend _ _ t r | conditional t r | statement t r | declaration _ t r => t :: r
  | expr _ ts | climb _ _ ts | alternative ts | block _ ts | blockStatements ts
  | skipStatement ts | params ts
  | paramItems ts | exprList _ ts | exprItems _ ts | moreExprItems _ ts | pairs ts | pairItems ts
  | morePairItems ts | statements ts => ts

/-- The parser that is called. -/
@[simp, grind =]
def parser : Call π → Parser
  | expr _ _ => .expr
  | operand _ _ => .operand
  | climb _ _ _ => .climb
  | extend _ _ _ _ => .extend
  | conditional _ _ => .conditional
  | alternative _ => .alternative
  | block _ _ => .block
  | blockStatements _ => .blockStatements
  | statement _ _ => .statement
  | declaration _ _ _ => .declaration
  | skipStatement _ => .skipStatement
  | params _ => .params
  | paramItems _ => .paramItems
  | exprList _ _ => .exprList
  | exprItems _ _ => .exprItems
  | moreExprItems _ _ => .moreExprItems
  | pairs _ => .pairs
  | pairItems _ => .pairItems
  | morePairItems _ => .morePairItems
  | statements _ => .statements

/-- How far a call is from its end: no call that it makes is as far. -/
@[simp, grind =]
def height (c : Call π) : Nat :=
  6 * c.tokens.length + c.parser.rank

/-- The answer to a call.  What is passed over in a malformed statement builds nothing, and
a program is built in any case. -/
def answer (endPos : π) : (c : Call π) → Answer π c.Result
  | expr p ts => (Reading.expr endPos p ts).answer
  | operand t r => (Reading.operand endPos t r).answer
  | climb p left ts => (Reading.climb endPos p left ts).answer
  | extend left c t r => (Reading.extend endPos left c t r).answer
  | conditional t r => (Reading.conditional endPos t r).answer
  | alternative ts => (Reading.alternative endPos ts).answer
  | block brace ts => (Reading.block endPos brace ts).answer
  | blockStatements ts => (Reading.blockStatements endPos ts).answer
  | statement t r => (Reading.statement endPos t r).answer
  | declaration kind t r => (Reading.declaration endPos kind t r).answer
  | skipStatement ts => ⟨some (), Reading.skipStatement ts, []⟩
  | params ts => (Reading.params endPos ts).answer
  | paramItems ts => (Reading.paramItems endPos ts).answer
  | exprList close ts => (Reading.exprList endPos close ts).answer
  | exprItems close ts => (Reading.exprItems endPos close ts).answer
  | moreExprItems close ts => (Reading.moreExprItems endPos close ts).answer
  | pairs ts => (Reading.pairs endPos ts).answer
  | pairItems ts => (Reading.pairItems endPos ts).answer
  | morePairItems ts => (Reading.morePairItems endPos ts).answer
  | statements ts =>
    ⟨some (Reading.statements endPos ts).1, [], (Reading.statements endPos ts).2⟩

/-- The first call makes the second, having found some errors by then. -/
inductive Makes (endPos : π) : Call π → List (ParseError π) → Call π → Prop
  | operand {p t r} : Makes endPos (.expr p (t :: r)) [] (.operand t r)
  | climb {p t r left rest} (h : (Reading.operand endPos t r).Yields left rest) :
      Makes endPos (.expr p (t :: r)) (Reading.operand endPos t r).errors (.climb p left rest)
  | unary {t r} (ht : t.kind = .bang ∨ t.kind = .minus) :
      Makes endPos (.operand t r) [] (.expr .unary r)
  | group {t r} (ht : t.kind = .leftParen) : Makes endPos (.operand t r) [] (.expr .lowest r)
  | conditional {t r} (ht : t.kind = .kwIf) : Makes endPos (.operand t r) [] (.conditional t r)
  | loopCondition {t r} (ht : t.kind = .kwWhile) :
      Makes endPos (.operand t r) [] (.expr .lowest r)
  | loopBody {t r c brace rest} (ht : t.kind = .kwWhile)
      (hc : (Reading.expr endPos .lowest r).Yields c (brace :: rest))
      (hbrace : brace.kind = .leftBrace) :
      Makes endPos (.operand t r) (Reading.expr endPos .lowest r).errors (.block brace rest)
  | params {t paren r} (ht : t.kind = .kwFunc) (hparen : paren.kind = .leftParen) :
      Makes endPos (.operand t (paren :: r)) [] (.params r)
  | funcBody {t paren r ps brace rest} (ht : t.kind = .kwFunc) (hparen : paren.kind = .leftParen)
      (hps : (Reading.params endPos r).Yields ps (brace :: rest))
      (hbrace : brace.kind = .leftBrace) :
      Makes endPos (.operand t (paren :: r)) (Reading.params endPos r).errors (.block brace rest)
  | elements {t r} (ht : t.kind = .leftBracket) :
      Makes endPos (.operand t r) [] (.exprList .rightBracket r)
  | members {t r} (ht : t.kind = .leftBrace) : Makes endPos (.operand t r) [] (.pairs r)
  | extend {p left c t r} (hc : Continuation.ofKind? t.kind = some c) (hp : p < c.precedence) :
      Makes endPos (.climb p left (t :: r)) [] (.extend left c t r)
  | climbOn {p left c t r left' rest} (hc : Continuation.ofKind? t.kind = some c)
      (hp : p < c.precedence) (h : (Reading.extend endPos left c t r).Yields left' rest) :
      Makes endPos (.climb p left (t :: r)) (Reading.extend endPos left c t r).errors
        (.climb p left' rest)
  | rightOperand {left op t r} :
      Makes endPos (.extend left (.binary op) t r) [] (.expr op.precedence r)
  | assigned {id t r} : Makes endPos (.extend (.ident id) .assign t r) [] (.expr .lowest r)
  | dropped {left t r} (h : ∀ id, left ≠ .ident id) :
      Makes endPos (.extend left .assign t r) [⟨.notAssignable left.render, t.pos⟩]
        (.expr .lowest r)
  | arguments {left t r} : Makes endPos (.extend left .call t r) [] (.exprList .rightParen r)
  | index {left t r} : Makes endPos (.extend left .index t r) [] (.expr .lowest r)
  | condition {t r} : Makes endPos (.conditional t r) [] (.expr .lowest r)
  | consequence {t r c brace rest}
      (hc : (Reading.expr endPos .lowest r).Yields c (brace :: rest))
      (hbrace : brace.kind = .leftBrace) :
      Makes endPos (.conditional t r) (Reading.expr endPos .lowest r).errors (.block brace rest)
  | alternative {t r c brace r' b rest}
      (hc : (Reading.expr endPos .lowest r).Yields c (brace :: r'))
      (hbrace : brace.kind = .leftBrace) (hb : (Reading.block endPos brace r').Yields b rest) :
      Makes endPos (.conditional t r)
        ((Reading.expr endPos .lowest r).errors ++ (Reading.block endPos brace r').errors)
        (.alternative rest)
  | elseIf {t u r} (ht : t.kind = .kwElse) (hu : u.kind = .kwIf) :
      Makes endPos (.alternative (t :: u :: r)) [] (.conditional u r)
  | elseBlock {t u r} (ht : t.kind = .kwElse) (hu : u.kind = .leftBrace) :
      Makes endPos (.alternative (t :: u :: r)) [] (.block u r)
  | blockStatements {brace ts} : Makes endPos (.block brace ts) [] (.blockStatements ts)
  | blockStatement {t r} (ht : t.kind ≠ .rightBrace) :
      Makes endPos (.blockStatements (t :: r)) [] (.statement t r)
  | laterBlockStatements {t r rest} (ht : t.kind ≠ .rightBrace)
      (h : (Reading.statement endPos t r).rest = rest) :
      Makes endPos (.blockStatements (t :: r)) (Reading.statement endPos t r).errors
        (.blockStatements rest)
  | declaration {t kind r}
      (ht : t.kind = .kwVar ∧ kind = .var ∨ t.kind = .kwVal ∧ kind = .val) :
      Makes endPos (.statement t r) [] (.declaration kind t r)
  | returned {t r} (ht : t.kind = .kwReturn) :
      Makes endPos (.statement t r) [] (.expr .lowest r)
  | expression {t r} (hvar : t.kind ≠ .kwVar) (hval : t.kind ≠ .kwVal)
      (hreturn : t.kind ≠ .kwReturn) : Makes endPos (.statement t r) [] (.expr .lowest (t :: r))
  | skipStatement {kind t r rest} (h : (declarationHead endPos r).result = none)
      (hrest : (declarationHead endPos r).rest = rest) :
      Makes endPos (.declaration kind t r) (declarationHead endPos r).errors
        (.skipStatement rest)
  | declared {kind t r x rest} (h : (declarationHead endPos r).Yields x rest) :
      Makes endPos (.declaration kind t r) (declarationHead endPos r).errors (.expr .lowest rest)
  | skipToken {t r} (hsemicolon : t.kind ≠ .semicolon) (hbrace : t.kind ≠ .rightBrace) :
      Makes endPos (.skipStatement (t :: r)) [] (.skipStatement r)
  | paramItems {ts} (h : ∀ t ∈ ts.head?, t.kind ≠ .rightParen) :
      Makes endPos (.params ts) [] (.paramItems ts)
  | laterParams {t c r} (ht : t.kind = .identifier) (hc : c.kind = .comma) :
      Makes endPos (.paramItems (t :: c :: r)) [] (.paramItems r)
  | exprItems {close ts} (h : ∀ t ∈ ts.head?, t.kind ≠ close) :
      Makes endPos (.exprList close ts) [] (.exprItems close ts)
  | element {close ts} : Makes endPos (.exprItems close ts) [] (.expr .lowest ts)
  | moreExprItems {close ts e rest} (he : (Reading.expr endPos .lowest ts).Yields e rest) :
      Makes endPos (.exprItems close ts) (Reading.expr endPos .lowest ts).errors
        (.moreExprItems close rest)
  | laterExprItems {close t r} (ht : t.kind = .comma) :
      Makes endPos (.moreExprItems close (t :: r)) [] (.exprItems close r)
  | pairItems {ts} (h : ∀ t ∈ ts.head?, t.kind ≠ .rightBrace) :
      Makes endPos (.pairs ts) [] (.pairItems ts)
  | key {ts} : Makes endPos (.pairItems ts) [] (.expr .lowest ts)
  | value {ts k colon rest} (hk : (Reading.expr endPos .lowest ts).Yields k (colon :: rest))
      (hcolon : colon.kind = .colon) :
      Makes endPos (.pairItems ts) (Reading.expr endPos .lowest ts).errors (.expr .lowest rest)
  | morePairItems {ts k colon r v rest}
      (hk : (Reading.expr endPos .lowest ts).Yields k (colon :: r))
      (hcolon : colon.kind = .colon) (hv : (Reading.expr endPos .lowest r).Yields v rest) :
      Makes endPos (.pairItems ts)
        ((Reading.expr endPos .lowest ts).errors ++ (Reading.expr endPos .lowest r).errors)
        (.morePairItems rest)
  | laterPairItems {t r} (ht : t.kind = .comma) :
      Makes endPos (.morePairItems (t :: r)) [] (.pairItems r)
  | statement {t r} : Makes endPos (.statements (t :: r)) [] (.statement t r)
  | laterStatements {t r rest} (h : (Reading.statement endPos t r).rest = rest) :
      Makes endPos (.statements (t :: r)) (Reading.statement endPos t r).errors
        (.statements rest)

/-- The first call makes the second, whatever it has found by then. -/
def Calls (endPos : π) (c d : Call π) : Prop :=
  ∃ found, c.Makes endPos found d

end Call

end Reading

end MonkeyLang
