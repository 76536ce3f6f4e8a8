import ArithLang.Expr
import ArithLang.Parser.Grammar

/-!
Grammatical trees, node by node: what each node demands of its children as they are written. A child
that stands in parentheses of its own meets every demand but the one to be assignable.
-/

namespace ArithLang

namespace LogicalOp

def kind : LogicalOp → Kind
  | or => .logicalOr
  | and => .logicalAnd

def strength (op : LogicalOp) : Nat := op.kind.strength?.getD 0

theorem chainStrength?_kind (op : LogicalOp) :
    Grammar.chainStrength? op.kind = some op.strength := by
  cases op <;> rfl

theorem strength_pos (op : LogicalOp) : 0 < op.strength := by
  cases op <;> decide

end LogicalOp

namespace BinaryOp

def kind : BinaryOp → Kind
  | eq | notEq | strictEq | strictNotEq => .equality
  | lt | ltEq | gt | gtEq => .relational
  | shl | shr | ushr => .bitShift
  | add | sub => .plusMin
  | mul => .star
  | div => .slash
  | mod => .modulo
  | exp => .exponent
  | bitOr => .bitwiseOr
  | bitXor => .bitwiseXor
  | bitAnd => .bitwiseAnd

def strength (op : BinaryOp) : Nat := op.kind.strength?.getD 0

theorem chainStrength?_kind (op : BinaryOp) :
    Grammar.chainStrength? op.kind = some op.strength := by
  cases op <;> rfl

theorem strength_pos (op : BinaryOp) : 0 < op.strength := by
  cases op <;> decide

end BinaryOp

namespace Expr

@[simp] def children : Expr → List Expr
  | number .. | identifier .. => []
  | member object property _ _ => [object, property]
  | sequence items _ => items
  | assignment _ left right _ | logical _ left right _ | binary _ left right _ => [left, right]
  | conditional test consequent alternate _ => [test, consequent, alternate]
  | unary _ _ argument _ | update _ _ argument _ => [argument]

/-- A property of a node and of every node below it. -/
inductive Every (P : Expr → Prop) : Expr → Prop
  | intro : P e → (∀ c ∈ e.children, Every P c) → Every P e

theorem every_iff {P : Expr → Prop} {e : Expr} :
    e.Every P ↔ P e ∧ ∀ c ∈ e.children, c.Every P := by
  constructor
  · rintro ⟨h, hc⟩
    exact ⟨h, hc⟩
  · rintro ⟨h, hc⟩
    exact ⟨h, hc⟩

theorem Every.imp {P Q : Expr → Prop} {e : Expr} (h : e.Every P) (hPQ : ∀ e, P e → Q e) :
    e.Every Q := by
  induction h with
  | intro h _ ih => exact ⟨hPQ _ h, ih⟩

@[simp] theorem children_withInfo (i : Info) (e : Expr) : (e.withInfo i).children = e.children := by
  cases e <;> rfl

@[simp] theorem withInfo_withInfo (i j : Info) (e : Expr) :
    (e.withInfo i).withInfo j = e.withInfo j := by
  cases e <;> rfl

@[simp] theorem isParenthesized_withInfo (i : Info) (e : Expr) :
    (e.withInfo i).isParenthesized = i.extra.parenthesized := by
  rw [isParenthesized, extra, info_withInfo]

/-- Whether an expression may be an item of a list. -/
def standsInList (e : Expr) : Bool :=
  e.isParenthesized || match e with
    | sequence .. => false
    | _ => true

/-- Whether an expression may be an operand of binary operators, or the test of a conditional. -/
def standsInChain (e : Expr) : Bool :=
  e.isParenthesized || match e with
    | sequence .. | assignment .. | conditional .. => false
    | _ => true

def standsUnderPrefix (e : Expr) : Bool :=
  e.isParenthesized || match e with
    | number .. | identifier .. | member .. | unary .. | update .. => true
    | _ => false

def standsUnderSubscript (e : Expr) : Bool :=
  e.isParenthesized || match e with
    | number .. | identifier .. | member .. => true
    | _ => false

section

variable {e l r a t c : Expr} {i : Info} {isPrefix : Bool}

@[simp] theorem standsInList_sequence {es : List Expr} :
    (sequence es i).standsInList = i.extra.parenthesized := Bool.or_false _

@[simp] theorem standsInChain_sequence {es : List Expr} :
    (sequence es i).standsInChain = i.extra.parenthesized := Bool.or_false _

@[simp] theorem standsInChain_assignment {op : AssignOp} :
    (assignment op l r i).standsInChain = i.extra.parenthesized := Bool.or_false _

@[simp] theorem standsInChain_conditional :
    (conditional t c a i).standsInChain = i.extra.parenthesized := Bool.or_false _

@[simp] theorem standsUnderPrefix_logical {op : LogicalOp} :
    (logical op l r i).standsUnderPrefix = i.extra.parenthesized := Bool.or_false _

@[simp] theorem standsUnderPrefix_binary {op : BinaryOp} :
    (binary op l r i).standsUnderPrefix = i.extra.parenthesized := Bool.or_false _

@[simp] theorem standsUnderSubscript_unary {op : UnaryOp} :
    (unary op isPrefix a i).standsUnderSubscript = i.extra.parenthesized := Bool.or_false _

@[simp] theorem standsUnderSubscript_update {op : UpdateOp} :
    (update op isPrefix a i).standsUnderSubscript = i.extra.parenthesized := Bool.or_false _

end

variable {e : Expr}

theorem standsUnderPrefix_of_subscript (h : e.standsUnderSubscript = true) :
    e.standsUnderPrefix = true := by
  revert h
  unfold standsUnderSubscript standsUnderPrefix
  cases e <;> simp

theorem standsUnderSubscript_parenthesize (offset : Nat) (e : Expr) :
    (e.parenthesize offset).standsUnderSubscript = true := by
  unfold standsUnderSubscript parenthesize withExtra
  simp

theorem standsUnderPrefix_of_assignable (h : e.isAssignable = true) :
    e.standsUnderPrefix = true := by
  unfold standsUnderPrefix
  cases e <;> simp [isAssignable] at h ⊢

theorem standsUnderSubscript_of_assignable (h : e.isAssignable = true) :
    e.standsUnderSubscript = true := by
  unfold standsUnderSubscript
  cases e <;> simp [isAssignable] at h ⊢

theorem standsInChain_of_operand (h : e.standsUnderPrefix = true) : e.standsInChain = true := by
  revert h
  unfold standsUnderPrefix standsInChain
  cases e <;> simp

theorem standsInList_of_chain (h : e.standsInChain = true) : e.standsInList = true := by
  revert h
  unfold standsInChain standsInList
  cases e <;> simp

/-- The strength with which a bare chain holds its operands. -/
def bareStrength? (e : Expr) : Option Nat :=
  if e.isParenthesized then none
  else match e with
    | logical op .. => some op.strength
    | binary op .. => some op.strength
    | _ => none

def isBarePower (e : Expr) : Bool :=
  !e.isParenthesized && match e with
    | binary .exp .. => true
    | _ => false

theorem bareStrength?_of_operand (h : e.standsUnderPrefix = true) : e.bareStrength? = none := by
  revert h
  unfold standsUnderPrefix bareStrength?
  cases e <;> simp

theorem bareStrength?_logical {op : LogicalOp} {l r : Expr} {i : Info}
    (h : i.extra.parenthesized = false) : (logical op l r i).bareStrength? = some op.strength := by
  simp [bareStrength?, isParenthesized, extra, info, h]

theorem bareStrength?_binary {op : BinaryOp} {l r : Expr} {i : Info}
    (h : i.extra.parenthesized = false) : (binary op l r i).bareStrength? = some op.strength := by
  simp [bareStrength?, isParenthesized, extra, info, h]

theorem isBarePower_exp {l r : Expr} {i : Info} (h : i.extra.parenthesized = false) :
    (binary .exp l r i).isBarePower = true := by
  simp [isBarePower, isParenthesized, extra, info, h]

theorem bareStrength?_of_power (h : e.isBarePower = true) : e.bareStrength? = some 10 := by
  unfold isBarePower at h
  obtain ⟨hp, h⟩ := Bool.and_eq_true_iff.1 h
  split at h
  · exact bareStrength?_binary (by simpa [isParenthesized, extra, info] using hp)
  · cases h

theorem bareStrength?_pos {s : Nat} (h : e.bareStrength? = some s) : 0 < s := by
  unfold bareStrength? at h
  split at h
  · cases h
  · split at h
    · exact Option.some.inj h ▸ LogicalOp.strength_pos _
    · exact Option.some.inj h ▸ BinaryOp.strength_pos _
    · cases h

theorem isBarePower_of_operand (h : e.standsUnderPrefix = true) : e.isBarePower = false := by
  revert h
  unfold standsUnderPrefix isBarePower
  cases e <;> simp +contextual

/-- Whether the text of an expression begins with a parenthesis. -/
def opensWithParen : Expr → Bool
  | number _ i | identifier _ i | sequence [] i | unary _ _ _ i | update _ true _ i =>
    i.extra.parenthesized
  | member first _ _ i | sequence (first :: _) i | assignment _ first _ i
  | conditional first _ _ i | logical _ first _ i | binary _ first _ i | update _ false first i =>
    i.extra.parenthesized || first.opensWithParen

theorem opensWithParen_of_parenthesized (h : e.isParenthesized = true) :
    e.opensWithParen = true := by
  rw [isParenthesized, extra] at h
  unfold opensWithParen
  split <;> simp_all [info]

/-- A bare prefix operation may be raised to a power only if its argument looks parenthesized and is
not, as in `-(a)[0] ** b`. -/
def isPlainBase : Expr → Bool
  | unary _ _ argument i =>
    i.extra.parenthesized || !argument.isParenthesized && argument.opensWithParen
  | _ => true

/-- An operator of this strength does not take the last operand away. -/
structure EndsBefore (strength : Nat) (e : Expr) : Prop where
  strength_le : ∀ s, e.bareStrength? = some s → strength ≤ s
  /-- The right operand of a power would have taken another operator of its strength. -/
  power : e.isBarePower = true → strength ≠ 10

/-- The left operand of an operator. -/
structure StandsLeftOf (kind : Kind) (strength : Nat) (e : Expr) : Prop
    extends e.EndsBefore strength where
  chain : e.standsInChain = true
  base : kind = .exponent → e.isPlainBase = true

/-- The right operand of an operator. -/
structure StandsRightOf (kind : Kind) (strength : Nat) (e : Expr) : Prop where
  chain : e.standsInChain = true
  strength_lt : ∀ s, e.bareStrength? = some s → strength < s ∨ kind = .exponent ∧ strength = s

/-- What a node demands. -/
def Obeys (strict : Bool) : Expr → Prop
  | number .. | identifier .. => True
  | member object _ computed _ => computed = true ∧ object.standsUnderSubscript = true
  | sequence items _ => 2 ≤ items.length ∧ ∀ item ∈ items, item.standsInList = true
  | assignment _ left right _ => left.isAssignable = true ∧ right.standsInList = true
  | conditional test consequent alternate _ =>
    test.standsInChain = true ∧ consequent.standsInList = true ∧ alternate.standsInList = true
  | logical op left right _ =>
    left.StandsLeftOf op.kind op.strength ∧ right.StandsRightOf op.kind op.strength
  | binary op left right _ =>
    left.StandsLeftOf op.kind op.strength ∧ right.StandsRightOf op.kind op.strength
  | unary op isPrefix argument _ =>
    isPrefix = true ∧ argument.standsUnderPrefix = true ∧
      (strict && op == .delete && argument.isIdentifier) = false
  | update _ _ argument _ => argument.isAssignable = true

/-- A tree of which every node meets its demands. -/
def Grammatical (strict : Bool) (e : Expr) : Prop := e.Every (Obeys strict)

theorem obeys_withInfo {strict : Bool} (i : Info) (e : Expr) :
    (e.withInfo i).Obeys strict ↔ e.Obeys strict := by
  cases e <;> rfl

theorem grammatical_withInfo {strict : Bool} (i : Info) (e : Expr) :
    (e.withInfo i).Grammatical strict ↔ e.Grammatical strict := by
  unfold Grammatical
  rw [every_iff, every_iff, obeys_withInfo, children_withInfo]

/-- What a node should note about its argument. -/
def argumentNote? : Expr → Option Bool
  | unary _ _ argument _ | update _ true argument _ =>
    some (argument.opensWithParen && !argument.isParenthesized)
  | _ => none

theorem argumentNote?_withInfo (i : Info) (e : Expr) :
    (e.withInfo i).argumentNote? = e.argumentNote? := by
  cases e with
  | update _ isPrefix => cases isPrefix <;> rfl
  | _ => rfl

def valueNote? : Expr → Option Number
  | number value _ => some value
  | _ => none

theorem valueNote?_withInfo (i : Info) (e : Expr) : (e.withInfo i).valueNote? = e.valueNote? := by
  cases e <;> rfl

/-- The notes of a node agree with its tree. -/
structure Noted (e : Expr) : Prop where
  argument_eq : e.extra.parenthesizedArgument = e.argumentNote?
  value_eq : e.extra.rawValue = e.valueNote?

/-- Grammatical, with the right notes at every node. -/
def WellMade (strict : Bool) (e : Expr) : Prop := e.Every fun e => e.Obeys strict ∧ e.Noted

variable {strict : Bool}

theorem WellMade.node (ho : e.Obeys strict) (hn : e.Noted)
    (hc : ∀ c ∈ e.children, c.WellMade strict) : e.WellMade strict :=
  .intro ⟨ho, hn⟩ hc

theorem WellMade.grammatical (h : e.WellMade strict) : e.Grammatical strict := by
  apply h.imp
  intro e he
  exact he.1

theorem WellMade.withInfo {i : Info} (h : e.WellMade strict)
    (ha : i.extra.parenthesizedArgument = e.extra.parenthesizedArgument)
    (hv : i.extra.rawValue = e.extra.rawValue) : (e.withInfo i).WellMade strict := by
  obtain ⟨⟨ho, hn⟩, hc⟩ := every_iff.1 h
  refine .intro ⟨(obeys_withInfo i e).2 ho, ?_, ?_⟩ (by rwa [children_withInfo])
  · rw [extra, info_withInfo, ha, hn.argument_eq, argumentNote?_withInfo]
  · rw [extra, info_withInfo, hv, hn.value_eq, valueNote?_withInfo]

end Expr

end ArithLang
