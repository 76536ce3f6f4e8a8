import ArithLang.Proofs.Parser.Step

/-!
The grammar as rules: which expression a construct may leave behind, and where. A rule has neither
fuel nor errors; it says what a successful reading does, one construct after the other. The number in
front counts the levels of nesting that are left.
-/

namespace ArithLang

namespace Expr

/-- Whether an expression may stand to the left of `**` as it is written. -/
def isPowerBase : Expr → Bool
  | unary _ _ _ i => i.extra.parenthesizedArgument == some true || i.extra.parenthesized
  | _ => true

end Expr

namespace Parser

variable {C : Type} [TokenCursor C]

/-- The node of the binary operator at the current token, waiting for its operands. -/
def node? (p : Parser C) : Option (Expr → Expr → Info → Expr) :=
  match p.kind with
  | .logicalOr | .logicalAnd => (p.operator? LogicalOp.ofText?).map .logical
  | _ => (p.operator? BinaryOp.ofText?).map .binary

theorem node?_eq_some {p : Parser C} {node : Expr → Expr → Info → Expr} (h : p.node? = some node) :
    (∃ op, p.operator? LogicalOp.ofText? = some op ∧ .logical op = node) ∨
      ∃ op, p.operator? BinaryOp.ofText? = some op ∧ .binary op = node := by
  unfold node? at h
  split at h
  · exact .inl (Option.map_eq_some_iff.1 h)
  · exact .inl (Option.map_eq_some_iff.1 h)
  · exact .inr (Option.map_eq_some_iff.1 h)

theorem run_binaryNode_bind {p : Parser C} {β : Type} (f : (Expr → Expr → Info → Expr) → Step C β) :
    (Grammar.binaryNode p.kind >>= f).run p =
      p.node?.elim ((Step.unexpected "operator" : Step C β).run p) fun node => (f node).run p := by
  unfold Grammar.binaryNode node?
  cases p.kind <;> exact Step.run_operator_map_bind ..

/-- A binary operator stronger than `least`, with all that must hold where it stands. -/
structure OperatorAt (p : Parser C) (least strength : Nat) (left : Expr)
    (node : Expr → Expr → Info → Expr) : Prop where
  strength_eq : Grammar.chainStrength? p.kind = some strength
  least_lt : least < strength
  base : p.kind = .exponent → left.isPowerBase = true
  node_eq : p.node? = some node

end Parser

/-- What is being read: a construct of the grammar, or the rest of one. -/
inductive Goal
  | expression
  | items : (start : Position) → List Expr → Goal
  | assignment
  | conditional
  | chain
  | climb : (start : Position) → (least : Nat) → Expr → Goal
  | operand
  | postfixed
  | subscripts
  | tail : (start : Position) → Expr → Goal
  | atom

open ArithLang.Parser (Moves)

inductive Parses {C : Type} [TokenCursor C] : Nat → Goal → Parser C → Expr → Parser C → Prop
  | number : p.kind = .num → p.token.value = .number v → p.Moves q →
      Parses n .atom p
        (.number v (q.infoFrom p.token.start { raw := some p.raw, rawValue := some v })) q
  | identifier : p.kind = .name → p.Moves q →
      Parses n .atom p
        (.identifier (p.token.value.text?.getD "") (q.infoFrom p.token.start {})) q
  | parenthesized : p.kind = .parenL → p.Moves p₁ → Parses n .expression p₁ e p₂ →
      p₂.kind = .parenR → p₂.Moves q →
      Parses n .atom p (e.parenthesize p.token.start.offset) q
  | tailEnd : p.kind ≠ .bracketL → Parses n (.tail start e) p e p
  | tailMore : p.kind = .bracketL → p.Moves p₁ → Parses n .expression p₁ property p₂ →
      p₂.kind = .bracketR → p₂.Moves p₃ →
      Parses n (.tail start (.member base property true (p₃.infoFrom start {}))) p₃ e q →
      Parses n (.tail start base) p e q
  | subscripts : Parses n .atom p base p₁ →
      ¬ (p.arrowStart = some p.token.start.offset ∧ p₁.kind = .arrow) →
      Parses n (.tail p.token.start base) p₁ e q →
      Parses n .subscripts p e q
  | plain : Parses n .subscripts p e q → q.atPostfix = false → Parses n .postfixed p e q
  | postfixUpdate : Parses n .subscripts p base p₁ → p₁.atPostfix = true →
      base.isAssignable = true → p₁.operator? UpdateOp.ofText? = some op → p₁.Moves q →
      q.atPostfix = false →
      Parses n .postfixed p (.update op false base (q.infoFrom p.token.start {})) q
  | operand : p.kind.startsUnary = false → Parses n .postfixed p e q → Parses n .operand p e q
  | prefixUpdate : p.kind = .incDec → p.operator? UpdateOp.ofText? = some op → p.Moves p₁ →
      Parses n .operand p₁ a q → a.isAssignable = true →
      Parses (n + 1) .operand p
        (.update op true a (q.infoFrom p.token.start (Grammar.argumentExtra p₁.kind a))) q
  | prefixUnary : p.kind.startsUnary = true → p.kind ≠ .incDec →
      p.operator? UnaryOp.ofText? = some op → p.Moves p₁ → Parses n .operand p₁ a q →
      (q.context.strict && op == .delete && a.isIdentifier) = false →
      Parses (n + 1) .operand p
        (.unary op true a (q.infoFrom p.token.start (Grammar.argumentExtra p₁.kind a))) q
  | climbEnd : (∀ strength, Grammar.chainStrength? p.kind = some strength → strength ≤ least) →
      Parses n (.climb start least e) p e p
  | climbLeft : p.OperatorAt least strength left node → p.kind.isRightAssociative = false →
      p.Moves p₁ → Parses n .operand p₁ first p₂ →
      Parses n (.climb p₁.token.start strength first) p₂ right p₃ →
      Parses n (.climb start least (node left right (p₃.infoFrom start {}))) p₃ e q →
      Parses n (.climb start least left) p e q
  | climbRight : p.OperatorAt least strength left node → p.kind.isRightAssociative = true →
      p.Moves p₁ → Parses (n + 1) .operand p₁ first p₂ →
      Parses n (.climb p₁.token.start (strength - 1) first) p₂ right p₃ →
      Parses (n + 1) (.climb start least (node left right (p₃.infoFrom start {}))) p₃ e q →
      Parses (n + 1) (.climb start least left) p e q
  | chain : Parses n .operand p first p₁ → Parses n (.climb p.token.start 0 first) p₁ e q →
      Parses n .chain p e q
  | unconditional : Parses n .chain p e q → q.kind ≠ .question → Parses n .conditional p e q
  | conditional : Parses (n + 1) .chain p test p₁ → p₁.kind = .question → p₁.Moves p₂ →
      Parses n .assignment p₂ consequent p₃ → p₃.kind = .colon → p₃.Moves p₄ →
      Parses n .assignment p₄ alternate q →
      Parses (n + 1) .conditional p
        (.conditional test consequent alternate (q.infoFrom p.token.start {})) q
  | unassigned : ¬ (p.kind = .yieldWord ∧ p.context.inGenerator = true) →
      Parses n .conditional p.marked e q → q.kind.isAssignment = false →
      Parses n .assignment p e q
  | assignment : ¬ (p.kind = .yieldWord ∧ p.context.inGenerator = true) →
      Parses (n + 1) .conditional p.marked left p₁ → p₁.kind.isAssignment = true →
      p₁.operator? AssignOp.ofText? = some op → left.isAssignable = true → p₁.Moves p₂ →
      Parses n .assignment p₂ right q →
      Parses (n + 1) .assignment p
        (.assignment op left right (q.infoFrom p.token.start {})) q
  | single : Parses n .assignment p e q → q.kind ≠ .comma → Parses (n + 1) .expression p e q
  | sequence : Parses n .assignment p first p₁ → p₁.kind = .comma →
      Parses (n + 1) (.items p.token.start [first]) p₁ e q → Parses (n + 1) .expression p e q
  | itemsEnd : p.kind ≠ .comma →
      Parses n (.items start items) p (.sequence items (p.infoFrom start {})) p
  | itemsMore : p.kind = .comma → p.Moves p₁ → Parses n .assignment p₁ item p₂ →
      Parses (n + 1) (.items start (items ++ [item])) p₂ e q →
      Parses (n + 1) (.items start items) p e q

end ArithLang
