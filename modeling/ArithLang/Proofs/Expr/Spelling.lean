import ArithLang.Proofs.Token.Lexeme

/-!
How trees are spelled: the tokens of a tree from left to right, with a pair of parentheses or more
around each node that is marked as parenthesized and around no other.
-/

namespace ArithLang

open Lexeme (mark)

namespace Kind

/-- What something that can be assigned to ends with. -/
def closesTarget : Kind → Bool
  | name | bracketR | parenR => true
  | _ => false

end Kind

/-- The node stands without parentheses of its own. -/
def Info.Bare (i : Info) : Prop := i.extra.parenthesized = false

theorem Info.Bare.eq {i : Info} (h : i.Bare) : i.extra.parenthesized = false := h

/-- These tokens spell the tree. The numbers bound the nesting of assignments, branches, prefix
operations, brackets and right operands of `**`: the first in the first operand of the tree, the
second in the rest of it. -/
inductive Spells : Nat → Nat → Expr → List Lexeme → Prop
  | number : i.Bare → Spells m n (.number v i) [(.num, .number v)]
  | identifier : i.Bare → Spells m n (.identifier name i) [(.name, .text name)]
  | member : i.Bare → Spells (m + 1) n object ts → Spells m m property us →
      Spells (m + 1) n (.member object property true i)
        (ts ++ mark .bracketL :: us ++ [mark .bracketR])
  | sequence {parts : List (Expr × List Lexeme)} : i.Bare → Spells n n first ts →
      (∀ part ∈ parts, Spells n n part.1 part.2) →
      Spells n n (.sequence (first :: parts.map Prod.fst) i)
        (ts ++ parts.flatMap fun part => mark .comma :: part.2)
  | assignment : i.Bare → Spells (n + 1) (n + 1) left ts → Spells n n right us →
      Spells (n + 1) (n + 1) (.assignment op left right i) (ts ++ op.lexeme :: us)
  | conditional : i.Bare → Spells (n + 1) (n + 1) test ts → Spells n n consequent us →
      Spells n n alternate vs →
      Spells (n + 1) (n + 1) (.conditional test consequent alternate i)
        (ts ++ mark .question :: us ++ mark .colon :: vs)
  | logical : i.Bare → Spells m n left ts → Spells n n right us →
      Spells m n (.logical op left right i) (ts ++ op.lexeme :: us)
  | binary : i.Bare → op ≠ .exp → Spells m n left ts → Spells n n right us →
      Spells m n (.binary op left right i) (ts ++ op.lexeme :: us)
  | power : i.Bare → Spells m (n + 1) left ts → Spells (n + 1) n right us →
      Spells m (n + 1) (.binary .exp left right i) (ts ++ BinaryOp.exp.lexeme :: us)
  | unary : i.Bare → Spells m m argument ts →
      Spells (m + 1) n (.unary op true argument i) (op.lexeme :: ts)
  | prefixUpdate : i.Bare → Spells m m argument ts →
      Spells (m + 1) n (.update op true argument i) (op.lexeme :: ts)
  | postfixUpdate : i.Bare → Spells m n argument ts →
      Spells m n (.update op false argument i) (ts ++ [op.lexeme])
  | parenthesized : i.extra.parenthesized = true → Spells m m e ts →
      Spells (m + 1) n (e.withInfo i) (mark .parenL :: ts ++ [mark .parenR])

namespace Spells

variable {m n : Nat} {e : Expr} {ts : List Lexeme}

/-- The first token is a parenthesis just if the tree says so. -/
theorem exists_head (h : Spells m n e ts) :
    ∃ t us, ts = t :: us ∧ (t.1 == .parenL) = e.opensWithParen ∧ t.1 ≠ .yieldWord := by
  induction h with
  | number hi | identifier hi | prefixUpdate hi => exact ⟨_, _, rfl, hi.symm, nofun⟩
  | unary hi =>
    exact ⟨_, _, rfl, (UnaryOp.kind_beq_parenL _).trans hi.symm, UnaryOp.kind_ne_yieldWord _⟩
  | member hi _ _ ih | sequence hi _ _ ih | assignment hi _ _ ih | logical hi _ _ ih
  | binary hi _ _ _ ih | power hi _ _ ih | conditional hi _ _ _ ih | postfixUpdate hi _ ih =>
    obtain ⟨t, us, rfl, ht, hy⟩ := ih
    refine ⟨_, _, rfl, ?_, hy⟩
    rw [Expr.opensWithParen, hi, ht, Bool.false_or]
  | parenthesized hi =>
    refine ⟨_, _, rfl, (Expr.opensWithParen_of_parenthesized ?_).symm, nofun⟩
    rw [Expr.isParenthesized, Expr.extra, Expr.info_withInfo, hi]

/-- What can be assigned to ends as a name does, or with a bracket that closes. -/
theorem exists_last (h : Spells m n e ts) (ha : e.isAssignable = true) :
    ∃ us t, ts = us ++ [t] ∧ t.1.closesTarget = true := by
  cases h with
  | identifier => exact ⟨[], _, rfl, rfl⟩
  | member | parenthesized => exact ⟨_, _, rfl, rfl⟩
  | number | sequence | assignment | conditional | logical | binary | power | unary
  | prefixUpdate | postfixUpdate => cases ha

end Spells

end ArithLang
