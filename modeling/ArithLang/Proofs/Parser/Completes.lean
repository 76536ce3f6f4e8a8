import ArithLang.Proofs.Expr.Rebuilds
import ArithLang.Proofs.Parser.Faces

/-!
What the rules make of a spelling, by how tightly the tree holds together. An operand may be followed
by more of a chain and an object by more subscripts, so for both it is told how a reading that goes on
from there is one from the start.
-/

namespace ArithLang

open Grammar (chainStrength?)
open TokenCursor (current)

variable {C : Type} [TokenCursor C]

/-- What has been read is the tree, and what is left is a parser at the cursor. -/
structure Rebuilt (x : Context) (e : Expr) (c : C) (e' : Expr) (q : Parser C) : Prop where
  rebuilds : e.Rebuilds e'
  cursor_eq : q.cursor = c
  context_eq : q.context = x

theorem Rebuilt.kind_eq {x : Context} {e e' : Expr} {c : C} {q : Parser C}
    (h : Rebuilt x e c e' q) : q.kind = (current c).kind := by
  rw [← h.cursor_eq]
  rfl

section

variable (C) (x : Context) (m n : Nat) (e : Expr) (ls : List Lexeme)

def PrimaryReads : Prop :=
  ∀ (p : Parser C) (c : C), p.context = x → p.Faces ls c → (current c).kind ≠ .arrow →
    ∃ e' q, Rebuilt x e c e' q ∧ p.kind.startsUnary = false ∧
      ∀ f r, Parses m (.tail p.token.start e') q f r → Parses m .subscripts p f r

def OperandReads : Prop :=
  ∀ (p : Parser C) (c : C), p.context = x → p.Faces ls c →
    (current c).kind.endsOperand = true → ∃ e' q, Rebuilt x e c e' q ∧ Parses m .operand p e' q

def ChainReads : Prop :=
  ∀ (p : Parser C) (c : C) (least : Nat), p.context = x → p.Faces ls c →
    (current c).kind.endsOperand = true → (∀ s, e.bareStrength? = some s → least < s) →
    (∀ next, chainStrength? (current c).kind = some next → e.EndsBefore next) →
    ∃ e' q first p₁, Rebuilt x e c e' q ∧ Parses m .operand p first p₁ ∧
      ∀ f r, Parses n (.climb p.token.start least e') q f r →
        Parses n (.climb p.token.start least first) p₁ f r

def ItemReads : Prop :=
  ∀ (p : Parser C) (c : C), p.context = x → p.Faces ls c → (current c).kind.endsItem = true →
    ∃ e' q, Rebuilt x e c e' q ∧ Parses n .assignment p e' q

def ExpressionReads : Prop :=
  ∀ (p : Parser C) (c : C), p.context = x → p.Faces ls c →
    (current c).kind.endsExpression = true →
    ∃ e' q, Rebuilt x e c e' q ∧ Parses (n + 1) .expression p e' q

/-- All that a tree's place in the grammar lets the rules make of its spelling. -/
structure Completes : Prop where
  primary : e.standsUnderSubscript = true → PrimaryReads C x m e ls
  operand : e.standsUnderPrefix = true → OperandReads C x m e ls
  chain : e.standsInChain = true → ChainReads C x m n e ls
  item : m = n → e.standsInList = true → ItemReads C x n e ls
  expression : m = n → ExpressionReads C x n e ls

end

variable {x : Context} {m n : Nat} {e : Expr} {l : Lexeme} {ls : List Lexeme} {p : Parser C} {c : C}

theorem PrimaryReads.operand (h : PrimaryReads C x m e ls) : OperandReads C x m e ls := by
  intro p c hx hf ho
  obtain ⟨hb, ha, -⟩ := Kind.endsOperand_iff.1 ho
  obtain ⟨e', q, hr, hk, hc⟩ := h p c hx hf ha
  rw [← hr.kind_eq] at hb ho
  exact ⟨e', q, hr, .operand hk (.plain (hc _ _ (.tailEnd hb)) (Parser.atPostfix_of_ends ho))⟩

theorem OperandReads.chain (h : OperandReads C x m e ls) : ChainReads C x m n e ls := by
  intro p c least hx hf ho _ _
  obtain ⟨e', q, hr, hp⟩ := h p c hx hf ho
  exact ⟨e', q, e', q, hr, hp, fun _ _ hc => hc⟩

/-- A chain read up to where no operator follows. -/
theorem ChainReads.chain (h : ChainReads C x n n e ls) (hx : p.context = x) (hf : p.Faces ls c)
    (ho : (current c).kind.endsOperand = true) (hs : chainStrength? (current c).kind = none) :
    ∃ e' q, Rebuilt x e c e' q ∧ Parses n .chain p e' q := by
  obtain ⟨e', q, first, p₁, hr, hp, hc⟩ := h p c 0 hx hf ho (fun _ => Expr.bareStrength?_pos)
    (by simp [hs])
  refine ⟨e', q, hr, .chain hp (hc _ _ (.climbEnd ?_))⟩
  simp [hr.kind_eq, hs]

theorem ChainReads.conditional (h : ChainReads C x n n e ls) (hx : p.context = x)
    (hf : p.Faces ls c) (ho : (current c).kind.endsOperand = true)
    (hs : chainStrength? (current c).kind = none) (hk : (current c).kind ≠ .question) :
    ∃ e' q, Rebuilt x e c e' q ∧ Parses n .conditional p e' q := by
  obtain ⟨e', q, hr, hp⟩ := h.chain hx hf ho hs
  rw [← hr.kind_eq] at hk
  exact ⟨e', q, hr, .unconditional hp hk⟩

/-- What no tree begins with. -/
theorem Spells.not_yield (h : Spells m n e ls) (hf : p.Faces ls c) :
    ¬ (p.kind = .yieldWord ∧ p.context.inGenerator = true) := by
  obtain ⟨l, us, rfl, -, hy⟩ := h.exists_head
  rintro ⟨hk, -⟩
  rw [Parser.kind_eq_of_lexeme hf.lexeme_eq] at hk
  exact hy hk

theorem ChainReads.item (h : ChainReads C x n n e ls) (hw : Spells n n e ls) :
    ItemReads C x n e ls := by
  intro p c hx hf hi
  obtain ⟨ho, hs, hq, ha⟩ := Kind.endsItem_iff.1 hi
  obtain ⟨e', q, hr, hp⟩ := h.conditional (p.marked_context.trans hx) hf.marked ho hs hq
  rw [← hr.kind_eq] at ha
  exact ⟨e', q, hr, .unassigned (hw.not_yield hf) hp ha⟩

theorem ItemReads.expression (h : ItemReads C x n e ls) : ExpressionReads C x n e ls := by
  intro p c hx hf hk
  obtain ⟨hi, hn⟩ := Kind.endsExpression_iff.1 hk
  obtain ⟨e', q, hr, hp⟩ := h p c hx hf hi
  rw [← hr.kind_eq] at hn
  exact ⟨e', q, hr, .single hp hn⟩

namespace Completes

theorem of_chain (hw : Spells m n e ls) (hp : e.standsUnderPrefix = false)
    (h : ChainReads C x m n e ls) : Completes C x m n e ls where
  primary he := by
    rw [Expr.standsUnderPrefix_of_subscript he] at hp
    cases hp
  operand he := by
    rw [he] at hp
    cases hp
  chain _ := h
  item hm _ := by
    subst hm
    exact h.item hw
  expression hm := by
    subst hm
    exact (h.item hw).expression

theorem of_operand (hw : Spells m n e ls) (hp : e.standsUnderSubscript = false)
    (h : OperandReads C x m e ls) : Completes C x m n e ls where
  primary he := by
    rw [he] at hp
    cases hp
  operand _ := h
  chain _ := h.chain
  item hm _ := by
    subst hm
    exact h.chain.item hw
  expression hm := by
    subst hm
    exact (h.chain.item hw).expression

theorem of_primary (hw : Spells m n e ls) (h : PrimaryReads C x m e ls) :
    Completes C x m n e ls where
  primary _ := h
  operand _ := h.operand
  chain _ := h.operand.chain
  item hm _ := by
    subst hm
    exact h.operand.chain.item hw
  expression hm := by
    subst hm
    exact (h.operand.chain.item hw).expression

theorem of_item (hc : e.standsInChain = false) (h : ItemReads C x n e ls) :
    Completes C x m n e ls where
  primary he := by
    rw [Expr.standsInChain_of_operand (Expr.standsUnderPrefix_of_subscript he)] at hc
    cases hc
  operand he := by
    rw [Expr.standsInChain_of_operand he] at hc
    cases hc
  chain he := by
    rw [he] at hc
    cases hc
  item _ _ := h
  expression _ := h.expression

theorem of_expression (hl : e.standsInList = false) (h : ExpressionReads C x n e ls) :
    Completes C x m n e ls where
  primary he := by
    rw [Expr.standsInList_of_chain
      (Expr.standsInChain_of_operand (Expr.standsUnderPrefix_of_subscript he))] at hl
    cases hl
  operand he := by
    rw [Expr.standsInList_of_chain (Expr.standsInChain_of_operand he)] at hl
    cases hl
  chain he := by
    rw [Expr.standsInList_of_chain he] at hl
    cases hl
  item _ he := by
    rw [he] at hl
    cases hl
  expression _ := h

end Completes

end ArithLang
