import ArithLang.Parser.Step

/-!
The grammar of expressions, from the tightest construct to the loosest. Every construct that may nest
calls the steps of the next level down, `inner`, which are given to it; so no step calls itself but to
go along a chain, and a chain is bounded by the tokens that remain.
-/

namespace ArithLang

/-- The steps that begin a level of nesting. -/
structure Nested (C : Type) where
  /-- An expression without a comma. -/
  assignment : Step C Expr
  /-- A prefix operator and its operand. -/
  unary : Step C Expr
  /-- The operators after an operand that bind tighter than a strength. -/
  climb : Expr → (start : Position) → (least : Nat) → Step C Expr

namespace Grammar

open Step

variable {C : Type} [TokenCursor C] (inner : Nested C)

/-- The rest of a comma list. -/
def listTail : Nat → Step C (List Expr)
  | 0 => return []
  | fuel + 1 => do
    if ← eat .comma then
      let item ← inner.assignment
      return item :: (← listTail fuel)
    else return []

def sequence : Step C Expr := do
  let start ← startPosition
  let first ← inner.assignment
  if ← looksAt .comma then
    let others ← listTail inner (← remaining)
    return .sequence (first :: others) (← infoFrom start {})
  else return first

def numberLiteral : Step C Expr := do
  let token ← current
  match token.value.number? with
  | none => unexpected "number"
  | some value =>
    let input := TokenCursor.input (← get).cursor
    let raw := (Text.slice? input token.start.offset token.stop.offset).getD []
    advance
    return .number value
      (← infoFrom token.start { raw := some (.ofList raw), rawValue := some value })

def identifier : Step C Expr := do
  let token ← current
  advance
  return .identifier (token.value.text?.getD "") (← infoFrom token.start {})

def parenthesized : Step C Expr := do
  let start ← startPosition
  advance
  let e ← sequence inner
  expect .parenR
  return e.parenthesize start.offset

def atom : Step C Expr := do
  match (← current).kind with
  | .num => numberLiteral
  | .name => identifier
  | .parenL => parenthesized inner
  | _ => unexpected "expression"

def subscriptTail (start : Position) : Nat → Expr → Step C Expr
  | 0, base => return base
  | fuel + 1, base => do
    if ← eat .bracketL then
      let property ← sequence inner
      expect .bracketR
      subscriptTail start fuel (.member base property true (← infoFrom start {}))
    else return base

/-- An atom and its subscripts. An arrow after an atom that could begin an arrow function is refused
as such. -/
def subscripts : Step C Expr := do
  let start ← startPosition
  let mayBeArrow := (← get).arrowStart == some start.offset
  let base ← atom inner
  if mayBeArrow && (← looksAt .arrow) then
    failHere (.unsupported "arrow function")
  else subscriptTail inner start (← remaining) base

/-- Whether the current token is a postfix operator of the expression before it. -/
def looksAtPostfix : Step C Bool := do
  if (← current).kind.isPostfix then return !(← canEndStatement) else return false

/-- An operand with its postfix operator. A second one has nothing to assign to. -/
def postfixed : Step C Expr := do
  let start ← startPosition
  let base ← subscripts inner
  if ← looksAtPostfix then
    checkTarget base "postfix operation"
    let op ← operator UpdateOp.ofText?
    advance
    let e := Expr.update op false base (← infoFrom start {})
    if ← looksAtPostfix then failAt (.invalidTarget "postfix operation") e.span.start.offset
    else return e
  else return base

def operand : Step C Expr := do
  if (← current).kind.startsUnary then inner.unary else postfixed inner

/-- What was written about the operand of a prefix operator that begins with this kind of token. -/
def argumentExtra (kind : Kind) (argument : Expr) : Extra :=
  { parenthesizedArgument := some (kind == .parenL && !argument.isParenthesized) }

def prefixUpdate : Step C Expr := do
  let start ← startPosition
  let op ← operator UpdateOp.ofText?
  advance
  let kind := (← current).kind
  let argument ← operand inner
  checkTarget argument "prefix operation"
  return .update op true argument (← infoFrom start (argumentExtra kind argument))

def prefixUnary : Step C Expr := do
  let start ← startPosition
  let op ← operator UnaryOp.ofText?
  advance
  let kind := (← current).kind
  let argument ← operand inner
  if (← context).strict && op == .delete && argument.isIdentifier then
    failAt .deleteOfName start.offset
  else
    return .unary op true argument (← infoFrom start (argumentExtra kind argument))

/-- A prefix operator with its operand. -/
def unary : Step C Expr := do
  if ← looksAt .incDec then prefixUpdate inner else prefixUnary inner

/-- The left operand of `**` is no prefix operation, unless parentheses make its extent plain. -/
def checkPowerBase (kind : Kind) (left : Expr) : Step C Unit :=
  match left with
  | .unary _ _ argument info =>
    if kind == .exponent && info.extra.parenthesizedArgument != some true &&
        !info.extra.parenthesized then
      failAt .ambiguousPower argument.span.start.offset
    else return ()
  | _ => return ()

/-- The node of the binary operator at the current token, waiting for its operands. -/
def binaryNode (kind : Kind) : Step C (Expr → Expr → Info → Expr) := do
  match kind with
  | .logicalOr | .logicalAnd => return .logical (← operator LogicalOp.ofText?)
  | _ => return .binary (← operator BinaryOp.ofText?)

/-- The strength of a kind as an operator between two operands. `in` is not one of them. -/
def chainStrength? (kind : Kind) : Option Nat :=
  if kind = .inWord then none else kind.strength?

/-- Folds onto `left` the operators that bind tighter than `least`. A right operand takes those that
bind tighter than its own operator; that of `**` takes `**` too, on the next level of nesting. -/
def climb (start : Position) (least : Nat) : Nat → Expr → Step C Expr
  | 0, left => return left
  | fuel + 1, left => do
    let kind := (← current).kind
    match chainStrength? kind with
    | none => return left
    | some strength =>
      if strength ≤ least then return left
      else
        checkPowerBase kind left
        let node ← binaryNode kind
        advance
        let rightStart ← startPosition
        let first ← operand inner
        let right ←
          (if kind.isRightAssociative then inner.climb first rightStart (strength - 1)
          else climb rightStart strength fuel first)
        climb start least fuel (node left right (← infoFrom start {}))

/-- Operands and the binary operators between them. -/
def chain : Step C Expr := do
  let start ← startPosition
  let first ← operand inner
  climb inner start 0 (← remaining) first

def conditional : Step C Expr := do
  let start ← startPosition
  let test ← chain inner
  if ← eat .question then
    let consequent ← inner.assignment
    expect .colon
    let alternate ← inner.assignment
    return .conditional test consequent alternate (← infoFrom start {})
  else return test

def assignment : Step C Expr := do
  let token ← current
  if token.kind == .yieldWord && (← context).inGenerator then
    failHere (.unsupported "yield expression")
  else
    markArrowStart token
    let left ← conditional inner
    if (← current).kind.isAssignment then
      let op ← operator AssignOp.ofText?
      checkTarget left "assignment expression"
      advance
      let right ← inner.assignment
      return .assignment op left right (← infoFrom token.start {})
    else return left

end Grammar

end ArithLang
