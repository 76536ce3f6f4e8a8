import ArithLang.Number
import ArithLang.Operator
import ArithLang.Position

/-! Expression trees. Every node knows where it stands and how it was written. -/

namespace ArithLang

structure Span where
  start : Position := {}
  stop : Position := {}
  deriving DecidableEq, Repr, Inhabited

/-- What the grammar of a node leaves unsaid about the way it was written. -/
structure Extra where
  parenthesized : Bool := false
  /-- The offset of the outermost parenthesis around just this node. -/
  parenStart : Option Nat := none
  /-- For a prefix operator: the operand begins with a parenthesis but is not parenthesized as a
  whole, as in `-(a)[0]`. -/
  parenthesizedArgument : Option Bool := none
  raw : Option String := none
  rawValue : Option Number := none
  deriving DecidableEq, Repr, Inhabited

structure Info where
  span : Span := {}
  extra : Extra := {}
  deriving DecidableEq, Repr, Inhabited

inductive Expr
  | number : Number → Info → Expr
  | identifier : String → Info → Expr
  | member : (object property : Expr) → (computed : Bool) → Info → Expr
  | sequence : List Expr → Info → Expr
  | assignment : AssignOp → (left right : Expr) → Info → Expr
  | conditional : (test consequent alternate : Expr) → Info → Expr
  | logical : LogicalOp → (left right : Expr) → Info → Expr
  | binary : BinaryOp → (left right : Expr) → Info → Expr
  | unary : UnaryOp → (isPrefix : Bool) → (argument : Expr) → Info → Expr
  | update : UpdateOp → (isPrefix : Bool) → (argument : Expr) → Info → Expr
  deriving Repr, Inhabited

namespace Expr

def info : Expr → Info
  | number _ i | identifier _ i | member _ _ _ i | sequence _ i | assignment _ _ _ i
  | conditional _ _ _ i | logical _ _ _ i | binary _ _ _ i | unary _ _ _ i | update _ _ _ i => i

def withInfo (i : Info) : Expr → Expr
  | number v _ => number v i
  | identifier n _ => identifier n i
  | member o p c _ => member o p c i
  | sequence es _ => sequence es i
  | assignment op l r _ => assignment op l r i
  | conditional t c a _ => conditional t c a i
  | logical op l r _ => logical op l r i
  | binary op l r _ => binary op l r i
  | unary op p a _ => unary op p a i
  | update op p a _ => update op p a i

@[simp] theorem info_withInfo (i : Info) (e : Expr) : (e.withInfo i).info = i := by
  cases e <;> rfl

@[simp] theorem withInfo_info (e : Expr) : e.withInfo e.info = e := by
  cases e <;> rfl

def span (e : Expr) : Span := e.info.span

def extra (e : Expr) : Extra := e.info.extra

def withExtra (extra : Extra) (e : Expr) : Expr :=
  e.withInfo { e.info with extra }

/-- Marks an expression that stands in parentheses; of several pairs the outermost counts. -/
def parenthesize (offset : Nat) (e : Expr) : Expr :=
  e.withExtra { e.extra with parenthesized := true, parenStart := some offset }

def isParenthesized (e : Expr) : Bool := e.extra.parenthesized

def isIdentifier : Expr → Bool
  | identifier .. => true
  | _ => false

/-- Names and subscripts can be assigned. -/
def isAssignable : Expr → Bool
  | identifier .. | member .. => true
  | _ => false

/-- The name of the node's kind, as its JSON text gives it. -/
def kindName : Expr → String
  | number .. => "NumericLiteral"
  | identifier .. => "Identifier"
  | member .. => "MemberExpression"
  | sequence .. => "SequenceExpression"
  | assignment .. => "AssignmentExpression"
  | conditional .. => "ConditionalExpression"
  | logical .. => "LogicalExpression"
  | binary .. => "BinaryExpression"
  | unary .. => "UnaryExpression"
  | update .. => "UpdateExpression"

end Expr

end ArithLang
