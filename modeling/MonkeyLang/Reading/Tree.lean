import MonkeyLang.Reading.Precedence
import MonkeyLang.Reading.Reply
import MonkeyLang.Token.Stream
import MonkeyLang.Tree.Render

/-!
# Trees from tokens

The parsers of the language.  Each takes the tokens still to be read, without
the end token, of which only the place is known; a parser whose first token
has already been looked at takes that token apart from the rest.

Expressions are read by precedence climbing: `Reading.expr` reads an operand
and `Reading.climb` extends it as long as what follows binds tighter than the
given precedence.  A parser that fails has still used up the token at which it
gave up, if that token was in the place of an operand; a token that merely was
not the expected one is left for what comes next.
-/

namespace MonkeyLang

namespace Reading

variable {π : Type}

/-- The failure of not finding a token of kind `want`. -/
def unexpected {α : Type} (endPos : π) (want : Kind) :
    (ts : List (Token π)) → Reply π α ts.length
  | [] => .fail (.expected want .eof) endPos [] (Nat.le_refl _)
  | t :: r => .fail (.expected want t.kind) t.pos (t :: r) (Nat.le_refl _)

/-- Takes a token of kind `want` off the front. -/
def expect (endPos : π) (want : Kind) (ts : List (Token π)) :
    Reply π (Token π) ts.length :=
  match ts with
  | [] => unexpected endPos want []
  | t :: r =>
    if t.kind = want then .ok t r (by simp) else unexpected endPos want (t :: r)

/-- Passes over a semicolon, if there is one. -/
def skipSemicolon : List (Token π) → List (Token π)
  | [] => []
  | t :: r => if t.kind = .semicolon then r else t :: r

theorem length_skipSemicolon_le (ts : List (Token π)) :
    (skipSemicolon ts).length ≤ ts.length := by
  unfold skipSemicolon
  split
  · simp
  · split <;> simp

/-- Passes over the rest of a malformed statement: up to a closing brace, or
up to and with a semicolon. -/
def skipStatement (ts : List (Token π)) : List (Token π) :=
  skipSemicolon (ts.dropWhile fun t => t.kind ≠ .semicolon && t.kind ≠ .rightBrace)

theorem length_skipStatement_le (ts : List (Token π)) :
    (skipStatement ts).length ≤ ts.length :=
  Nat.le_trans (length_skipSemicolon_le _) (List.dropWhile_suffix _).length_le

/-- The name that an identifier token stands for. -/
def identOf (t : Token π) : Ident (Token π) :=
  ⟨t, t.literal⟩

/-- The number that decimal digits stand for, if it is in range. -/
def integer? (literal : String) : Option Int64 :=
  let n := Nat.ofDigitChars 10 literal.toList 0
  if n < 0x8000000000000000 then some (Int64.ofNat n) else none

/-- A declaration up to the equals sign, without the word that begins it. -/
def declarationHead (endPos : π) (ts : List (Token π)) :
    Reply π (Ident (Token π)) ts.length :=
  (expect endPos .identifier ts).andThen (Nat.le_refl _) fun name r h =>
    ((expect endPos .equal r).map fun _ => identOf name).weaken h

/-- One or more names with commas between them, and a closing parenthesis. -/
def paramItems (endPos : π) :
    (ts : List (Token π)) → Reply π (List (Ident (Token π))) ts.length
  | [] => unexpected endPos .identifier []
  | t :: [] =>
    if t.kind = .identifier then
      ((expect endPos .rightParen []).map fun _ => [identOf t]).weaken (by simp)
    else unexpected endPos .identifier [t]
  | t :: c :: r =>
    if t.kind = .identifier then
      if c.kind = .comma then
        ((paramItems endPos r).map (identOf t :: ·)).weaken (by simp; omega)
      else
        ((expect endPos .rightParen (c :: r)).map fun _ => [identOf t]).weaken (by simp)
    else unexpected endPos .identifier (t :: c :: r)

/-- The parameters of a function, behind the opening parenthesis. -/
def params (endPos : π) (ts : List (Token π)) :
    Reply π (List (Ident (Token π))) ts.length :=
  match ts with
  | [] => paramItems endPos []
  | t :: r =>
    if t.kind = .rightParen then .ok [] r (by simp) else paramItems endPos (t :: r)

mutual

/-- An expression whose operators all bind tighter than `p`. -/
def expr (endPos : π) (p : Precedence) (ts : List (Token π)) :
    Reply π (Expr (Token π)) (ts.length - 1) :=
  match ts with
  | [] => .fail (.noOperand .eof) endPos [] (Nat.le_refl _)
  | t :: r =>
    (operand endPos t r).andThen (Nat.le_refl _) fun left rest h =>
      (climb endPos p left rest).weaken h
termination_by 8 * ts.length + 2
decreasing_by all_goals grind

/-- The operand that begins with the token `t`. -/
def operand (endPos : π) (t : Token π) (r : List (Token π)) :
    Reply π (Expr (Token π)) r.length :=
  match t.kind with
  | .identifier => .ok (.ident (identOf t)) r (Nat.le_refl _)
  | .integer =>
    match integer? t.literal with
    | some n => .ok (.int t n) r (Nat.le_refl _)
    | none => .fail (.integerOutOfRange t.literal) t.pos r (Nat.le_refl _)
  | .string => .ok (.str t t.literal) r (Nat.le_refl _)
  | .kwTrue => .ok (.bool t true) r (Nat.le_refl _)
  | .kwFalse => .ok (.bool t false) r (Nat.le_refl _)
  | .bang => ((expr endPos .unary r).map (.unary t .not)).weaken (by omega)
  | .minus => ((expr endPos .unary r).map (.unary t .negate)).weaken (by omega)
  | .leftParen =>
    (expr endPos .lowest r).andThen (by omega) fun e rest _ =>
      ((expect endPos .rightParen rest).map fun _ => e).weaken (by omega)
  | .kwIf => conditional endPos t r
  | .kwWhile =>
    (expr endPos .lowest r).andThen (by omega) fun c r₁ _ =>
      (expect endPos .leftBrace r₁).andThen (by omega) fun brace r₂ _ =>
        ((block endPos brace r₂).map (.loop t c)).weaken (by omega)
  | .kwFunc =>
    (expect endPos .leftParen r).andThen (by omega) fun _ r₁ _ =>
      (params endPos r₁).andThen (by omega) fun ps r₂ _ =>
        (expect endPos .leftBrace r₂).andThen (by omega) fun brace r₃ _ =>
          ((block endPos brace r₃).map (.func t ps)).weaken (by omega)
  | .leftBracket => (exprList endPos .rightBracket r).map (.array t)
  | .leftBrace => (pairs endPos r).map (.hash t)
  | .illegal => .fail (.illegalCharacter t.literal) t.pos r (Nat.le_refl _)
  | k => .fail (.noOperand k) t.pos r (Nat.le_refl _)
termination_by 8 * r.length + 9
decreasing_by all_goals grind

/-- Extends the expression `left` as long as what follows binds tighter than
`p`. -/
def climb (endPos : π) (p : Precedence) (left : Expr (Token π)) (ts : List (Token π)) :
    Reply π (Expr (Token π)) ts.length :=
  match ts with
  | [] => .ok left [] (Nat.le_refl _)
  | t :: r =>
    match Continuation.ofKind? t.kind with
    | none => .ok left (t :: r) (Nat.le_refl _)
    | some c =>
      if p < c.precedence then
        (extend endPos left c t r).andThen (by simp) fun left' rest _ =>
          (climb endPos p left' rest).weaken (by simp; omega)
      else .ok left (t :: r) (Nat.le_refl _)
termination_by 8 * ts.length + 1
decreasing_by all_goals grind

/-- The expression `left` extended by a continuation that begins with the
token `t`.  Only a name can be assigned to; behind anything else the right
side is read all the same, so that it is not taken for a statement. -/
def extend (endPos : π) (left : Expr (Token π)) (c : Continuation) (t : Token π)
    (r : List (Token π)) : Reply π (Expr (Token π)) r.length :=
  match c with
  | .binary op =>
    ((expr endPos op.precedence r).map (.binary t op left)).weaken (by omega)
  | .assign =>
    match left with
    | .ident id => ((expr endPos .lowest r).map (.assign t id)).weaken (by omega)
    | target =>
      let dropped := (expr endPos .lowest r).weaken (m := r.length) (by omega)
      ⟨none, dropped.rest, ⟨.notAssignable target.render, t.pos⟩ :: dropped.errors,
        dropped.length_le⟩
  | .call => (exprList endPos .rightParen r).map (.call t left)
  | .index =>
    (expr endPos .lowest r).andThen (by omega) fun i rest _ =>
      ((expect endPos .rightBracket rest).map fun _ => .index t left i).weaken (by omega)
termination_by 8 * r.length + 8
decreasing_by all_goals grind

/-- A conditional, behind its token `t`. -/
def conditional (endPos : π) (t : Token π) (r : List (Token π)) :
    Reply π (Expr (Token π)) r.length :=
  (expr endPos .lowest r).andThen (by omega) fun c r₁ _ =>
    (expect endPos .leftBrace r₁).andThen (by omega) fun brace r₂ _ =>
      (block endPos brace r₂).andThen (by omega) fun b r₃ _ =>
        ((alternative endPos r₃).map (.cond t c b)).weaken (by omega)
termination_by 8 * r.length + 8
decreasing_by all_goals grind

/-- The alternative of a conditional, if there is one. -/
def alternative (endPos : π) (ts : List (Token π)) :
    Reply π (Option (Block (Token π))) ts.length :=
  match ts with
  | [] => .ok none [] (Nat.le_refl _)
  | t :: r =>
    if t.kind = .kwElse then
      match r with
      | [] => (unexpected endPos .leftBrace []).weaken (by simp)
      | u :: more =>
        if u.kind = .kwIf then
          ((conditional endPos u more).map fun e => some (.mk u [.expr u e])).weaken
            (by simp; omega)
        else if u.kind = .leftBrace then
          ((block endPos u more).map some).weaken (by simp; omega)
        else (unexpected endPos .leftBrace (u :: more)).weaken (by simp)
    else .ok none (t :: r) (Nat.le_refl _)
termination_by 8 * ts.length
decreasing_by all_goals grind

/-- A block, behind its opening brace.  A block that is not closed before the
end of the text is an error, but is built all the same. -/
def block (endPos : π) (brace : Token π) (ts : List (Token π)) :
    Reply π (Block (Token π)) ts.length :=
  (blockStatements endPos ts).map (.mk brace)
termination_by 8 * ts.length + 5
decreasing_by all_goals grind

/-- The statements of a block and its closing brace.  A statement that cannot
be read is left out. -/
def blockStatements (endPos : π) (ts : List (Token π)) :
    Reply π (List (Stmt (Token π))) ts.length :=
  match ts with
  | [] => ⟨some [], [], [⟨.unclosedBlock, endPos⟩], Nat.le_refl _⟩
  | t :: r =>
    if t.kind = .rightBrace then .ok [] r (by simp)
    else
      (statement endPos t r).andThenAny fun s rest _ =>
        ((blockStatements endPos rest).map (s.toList ++ ·)).weaken (by simp; omega)
termination_by 8 * ts.length + 4
decreasing_by all_goals grind

/-- The statement that begins with the token `t`, and its semicolon. -/
def statement (endPos : π) (t : Token π) (r : List (Token π)) :
    Reply π (Stmt (Token π)) r.length :=
  match t.kind with
  | .kwVar => declaration endPos .var t r
  | .kwVal => declaration endPos .val t r
  | .kwReturn =>
    (expr endPos .lowest r).andThen (by omega) fun v rest h =>
      .ok (.ret t v) (skipSemicolon rest)
        (Nat.le_trans (length_skipSemicolon_le _) (Nat.le_trans h (by omega)))
  | _ =>
    (expr endPos .lowest (t :: r)).andThen (Nat.le_refl _) fun v rest h =>
      .ok (.expr t v) (skipSemicolon rest) (Nat.le_trans (length_skipSemicolon_le _) h)
termination_by 8 * r.length + 11
decreasing_by all_goals grind

/-- A declaration, behind the word that begins it.  When its name or its
equals sign is missing the rest of the statement is passed over. -/
def declaration (endPos : π) (kind : BindingKind) (t : Token π) (r : List (Token π)) :
    Reply π (Stmt (Token π)) r.length :=
  ((declarationHead endPos r).recover skipStatement length_skipStatement_le).andThen
    (Nat.le_refl _) fun name r₁ _ =>
      (expr endPos .lowest r₁).andThen (by omega) fun v rest h =>
        .ok (.declare kind t name v) (skipSemicolon rest)
          (Nat.le_trans (length_skipSemicolon_le _) (Nat.le_trans h (by omega)))
termination_by 8 * r.length + 3
decreasing_by all_goals grind

/-- Expressions with commas between them, and the token that closes them. -/
def exprList (endPos : π) (close : Kind) (ts : List (Token π)) :
    Reply π (List (Expr (Token π))) ts.length :=
  match ts with
  | [] => exprItems endPos close []
  | t :: r =>
    if t.kind = close then .ok [] r (by simp) else exprItems endPos close (t :: r)
termination_by 8 * ts.length + 5
decreasing_by all_goals grind

/-- One or more expressions with commas between them, and the token that closes
them. -/
def exprItems (endPos : π) (close : Kind) (ts : List (Token π)) :
    Reply π (List (Expr (Token π))) ts.length :=
  (expr endPos .lowest ts).andThen (by omega) fun e rest _ =>
    ((moreExprItems endPos close rest).map (e :: ·)).weaken (by omega)
termination_by 8 * ts.length + 4
decreasing_by all_goals grind

/-- What follows an expression in a list of them. -/
def moreExprItems (endPos : π) (close : Kind) (ts : List (Token π)) :
    Reply π (List (Expr (Token π))) ts.length :=
  match ts with
  | [] => unexpected endPos close []
  | t :: r =>
    if t.kind = .comma then (exprItems endPos close r).weaken (by simp)
    else (expect endPos close (t :: r)).map fun _ => []
termination_by 8 * ts.length
decreasing_by all_goals grind

/-- The pairs of a hash, behind its opening brace. -/
def pairs (endPos : π) (ts : List (Token π)) :
    Reply π (List (Expr (Token π) × Expr (Token π))) ts.length :=
  match ts with
  | [] => pairItems endPos []
  | t :: r =>
    if t.kind = .rightBrace then .ok [] r (by simp) else pairItems endPos (t :: r)
termination_by 8 * ts.length + 5
decreasing_by all_goals grind

/-- One or more pairs with commas between them, and the closing brace. -/
def pairItems (endPos : π) (ts : List (Token π)) :
    Reply π (List (Expr (Token π) × Expr (Token π))) ts.length :=
  (expr endPos .lowest ts).andThen (by omega) fun k r₁ _ =>
    (expect endPos .colon r₁).andThen (by omega) fun _ r₂ _ =>
      (expr endPos .lowest r₂).andThen (by omega) fun v r₃ _ =>
        ((morePairItems endPos r₃).map ((k, v) :: ·)).weaken (by omega)
termination_by 8 * ts.length + 4
decreasing_by all_goals grind

/-- What follows a pair in a hash. -/
def morePairItems (endPos : π) (ts : List (Token π)) :
    Reply π (List (Expr (Token π) × Expr (Token π))) ts.length :=
  match ts with
  | [] => unexpected endPos .comma []
  | t :: r =>
    if t.kind = .rightBrace then .ok [] r (by simp)
    else if t.kind = .comma then (pairItems endPos r).weaken (by simp)
    else unexpected endPos .comma (t :: r)
termination_by 8 * ts.length
decreasing_by all_goals grind

end

/-- The statements up to the end.  A statement that cannot be read is left
out. -/
def statements (endPos : π) (ts : List (Token π)) :
    List (Stmt (Token π)) × List (ParseError π) :=
  match ts with
  | [] => ([], [])
  | t :: r =>
    let s := statement endPos t r
    let more := statements endPos s.rest
    (s.result.toList ++ more.1, s.errors ++ more.2)
termination_by ts.length
decreasing_by
  have := (statement endPos t r).length_le
  simp only [List.length_cons]
  omega

end Reading

/-- What was built from tokens, and the errors found in them. -/
structure Parsed (π : Type) where
  program : Program (Token π)
  errors : List (ParseError π)

/-- Reads all tokens as a program; `endPos` is the place of their end. -/
def parseTokens {π : Type} (endPos : π) (ts : List (Token π)) : Parsed π :=
  let read := Reading.statements endPos ts
  ⟨⟨read.1⟩, read.2⟩

/-- Reads a text as a program. -/
def parseText (source : String) : Parsed Position :=
  parseTokens (endToken source).pos (tokens source)

/-- The program that a text is, or what is wrong with it. -/
def parse (source : String) :
    Except (List (ParseError Position)) (Program (Token Position)) :=
  let read := parseText source
  if read.errors.isEmpty then .ok read.program else .error read.errors

end MonkeyLang
