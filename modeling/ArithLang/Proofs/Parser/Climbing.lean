import ArithLang.Proofs.Expr.Written
import ArithLang.Proofs.Parser.Reads

/-!
What one more operator makes of a chain that is read: its left operand is the chain so far, its right
operand has taken all that binds tighter.
-/

namespace ArithLang

open LawfulCursor (Valid)

theorem Kind.eq_exponent {k : Kind} (h : k.isRightAssociative = true) : k = .exponent := by
  cases k <;> first | rfl | cases h

namespace Parser

variable {C : Type} [TokenCursor C] [LawfulCursor C] {p q : Parser C} {least strength : Nat}
  {left : Expr} {node : Expr → Expr → Info → Expr}

/-- The binary operator that is read is one of the two families, and its token is its own. -/
inductive OperatorAt.Family (p : Parser C) (strength : Nat) : (Expr → Expr → Info → Expr) → Prop
  | logical {op : LogicalOp} : p.token.lexeme = op.lexeme → op.strength = strength →
      Family p strength (.logical op)
  | binary {op : BinaryOp} : p.token.lexeme = op.lexeme → op.strength = strength →
      Family p strength (.binary op)

theorem OperatorAt.family (h : p.OperatorAt least strength left node) (hv : Valid p.cursor) :
    Family p strength node := by
  have hk : p.kind ≠ .name := kind_ne h.strength_eq nofun
  obtain ⟨op, hop, rfl⟩ | ⟨op, hop, rfl⟩ := node?_eq_some h.node_eq
  · have hl := LogicalOp.lexeme_of_ofText? (LawfulCursor.genuine hv) hk hop
    refine .logical hl (Option.some.inj ?_)
    rw [← op.chainStrength?_kind, ← h.strength_eq, kind_eq_of_lexeme hl]
    rfl
  · have hl := BinaryOp.lexeme_of_ofText? (LawfulCursor.genuine hv) hk hop
    refine .binary hl (Option.some.inj ?_)
    rw [← op.chainStrength?_kind, ← h.strength_eq, kind_eq_of_lexeme hl]
    rfl

section

variable {l r : Expr} {i : Info}

omit [LawfulCursor C]

theorem OperatorAt.Family.bareStrength?_eq (h : Family p strength node) (hi : i.Bare) :
    (node l r i).bareStrength? = some strength := by
  cases h with
  | logical _ hs | binary _ hs =>
    exact (if_neg (ne_true_of_eq_false hi)).trans (congrArg some hs)

theorem OperatorAt.Family.standsInChain (h : Family p strength node) :
    (node l r i).standsInChain = true := by
  cases h <;> exact Bool.or_true _

theorem OperatorAt.Family.isBarePower (h : Family p strength node)
    (hb : (node l r i).isBarePower = true) : p.kind = .exponent := by
  cases h with
  | logical => simp [Expr.isBarePower] at hb
  | @binary op hl =>
    rw [kind_eq_of_lexeme hl]
    cases op <;> simp [Expr.isBarePower] at hb
    rfl

theorem OperatorAt.Family.wellMade {strict : Bool} (h : Family p strength node)
    (hi : i.extra = {}) (hl : l.StandsLeftOf p.kind strength) (hr : r.StandsRightOf p.kind strength)
    (hwl : l.WellMade strict) (hwr : r.WellMade strict) : (node l r i).WellMade strict := by
  cases h with
  | logical ht hs | binary ht hs =>
    subst hs
    rw [kind_eq_of_lexeme ht] at hl hr
    refine .node ⟨hl, hr⟩ (Expr.noted_of_extra hi rfl rfl) ?_
    simpa using ⟨hwl, hwr⟩

theorem OperatorAt.Family.spells {m n : Nat} {ts us : List Lexeme} (h : Family p strength node)
    (hk : p.kind.isRightAssociative = false) (hi : i.Bare) (hl : Spells m n l ts)
    (hr : Spells n n r us) : Spells m n (node l r i) (ts ++ p.token.lexeme :: us) := by
  cases h with
  | logical ht =>
    rw [ht]
    exact .logical hi hl hr
  | @binary op ht =>
    rw [kind_eq_of_lexeme ht] at hk
    rw [ht]
    refine .binary hi ?_ hl hr
    rintro rfl
    cases hk

theorem OperatorAt.Family.spells_power {m n : Nat} {ts us : List Lexeme}
    (h : Family p strength node) (hk : p.kind.isRightAssociative = true) (hi : i.Bare)
    (hl : Spells m (n + 1) l ts) (hr : Spells (n + 1) n r us) :
    Spells m (n + 1) (node l r i) (ts ++ p.token.lexeme :: us) := by
  cases h with
  | @logical op ht =>
    rw [kind_eq_of_lexeme ht] at hk
    cases op <;> cases hk
  | @binary op ht =>
    rw [kind_eq_of_lexeme ht] at hk
    rw [ht]
    cases op with
    | exp => exact .power hi hl hr
    | _ => cases hk

end

/-- The chain read so far may be the left operand of what the current token says, and the whole chain
is a right operand of nothing weaker than `least`. -/
structure Climbing (p : Parser C) (least : Nat) (e : Expr) : Prop where
  chain : e.standsInChain = true
  least_lt : ∀ s, e.bareStrength? = some s → least < s
  endsBefore : ∀ next, Grammar.chainStrength? p.kind = some next → e.EndsBefore next

omit [LawfulCursor C] in
theorem Climbing.of_operand {e : Expr} (h : e.standsUnderPrefix = true) : p.Climbing least e where
  chain := Expr.standsInChain_of_operand h
  least_lt := by simp [Expr.bareStrength?_of_operand h]
  endsBefore _ _ :=
    ⟨by simp [Expr.bareStrength?_of_operand h], by simp [Expr.isBarePower_of_operand h]⟩

/-- No operator stronger than `least` follows. -/
def Stopped (p : Parser C) (least : Nat) : Prop :=
  ∀ next, Grammar.chainStrength? p.kind = some next → next ≤ least

omit [LawfulCursor C] in
theorem isPlainBase_of_noted {e : Expr} (h : e.isPowerBase = true) (hn : e.Noted) :
    e.isPlainBase = true := by
  cases e with
  | unary op isPrefix argument i =>
    have ha : i.extra.parenthesizedArgument = some _ := hn.argument_eq
    rw [Expr.isPowerBase, ha, Bool.or_comm] at h
    rw [Expr.isPlainBase, Bool.and_comm]
    simpa using h
  | _ => rfl

section

variable {bound m n : Nat} {r : Expr} {i : Info} {strict : Bool} {ts us : List Lexeme}

omit [LawfulCursor C] in
theorem OperatorAt.standsLeftOf (h : p.OperatorAt least strength left node)
    (hl : p.Climbing least left) (hn : left.WellMade strict) :
    left.StandsLeftOf p.kind strength where
  toEndsBefore := hl.endsBefore _ h.strength_eq
  chain := hl.chain
  base hk := isPlainBase_of_noted (h.base hk) (Expr.every_iff.1 hn).1.2

omit [LawfulCursor C] in
/-- One operator further on, when its right operand has taken all that binds tighter. -/
theorem OperatorAt.climbing (h : p.OperatorAt least strength left node)
    (hf : Family p strength node) (hb : bound ≤ strength) (hp : p.kind = .exponent → bound < 10)
    (hi : i.extra = {}) (hstop : q.Stopped bound) : q.Climbing least (node left r i) where
  chain := hf.standsInChain
  least_lt s hs := by
    obtain rfl := Option.some.inj ((hf.bareStrength?_eq (Info.bare_of_extra hi)).symm.trans hs)
    exact h.least_lt
  endsBefore next hn := by
    have := hstop next hn
    refine ⟨fun s hs => ?_, fun hbp => ?_⟩
    · obtain rfl := Option.some.inj ((hf.bareStrength?_eq (Info.bare_of_extra hi)).symm.trans hs)
      omega
    · have := hp (hf.isBarePower hbp)
      omega

theorem OperatorAt.extend (h : p.OperatorAt least strength left node) (hv : Valid p.cursor)
    (hk : p.kind.isRightAssociative = false) (hl : p.Climbing least left) (hwl : Written strict m n left ts)
    (hr : q.Climbing strength r) (hstop : q.Stopped strength) (hwr : Written strict n n r us)
    (start : Position) :
    q.Climbing least (node left r (q.infoFrom start {})) ∧
      Written strict m n (node left r (q.infoFrom start {})) (ts ++ p.token.lexeme :: us) := by
  have hf := h.family hv
  refine ⟨h.climbing hf (Nat.le_refl _) ?_ rfl hstop, ?_, ?_⟩
  · intro he
    rw [he] at hk
    cases hk
  · exact hf.spells hk rfl hwl.spells hwr.spells
  · refine hf.wellMade rfl (h.standsLeftOf hl hwl.made) ⟨hr.chain, ?_⟩ hwl.made hwr.made
    exact fun s hs => .inl (hr.least_lt s hs)

theorem OperatorAt.extend_power (h : p.OperatorAt least strength left node) (hv : Valid p.cursor)
    (hk : p.kind.isRightAssociative = true) (hl : p.Climbing least left) (hwl : Written strict m (n + 1) left ts)
    (hr : q.Climbing (strength - 1) r) (hstop : q.Stopped (strength - 1))
    (hwr : Written strict (n + 1) n r us) (start : Position) :
    q.Climbing least (node left r (q.infoFrom start {})) ∧
      Written strict m (n + 1) (node left r (q.infoFrom start {})) (ts ++ p.token.lexeme :: us) := by
  have hf := h.family hv
  have he : p.kind = .exponent := Kind.eq_exponent hk
  have hs : strength = 10 := by
    have := h.strength_eq
    rw [he] at this
    exact (Option.some.inj this).symm
  subst hs
  refine ⟨h.climbing hf (by decide) (fun _ => by decide) rfl hstop, ?_, ?_⟩
  · exact hf.spells_power hk rfl hwl.spells hwr.spells
  · refine hf.wellMade rfl (h.standsLeftOf hl hwl.made) ⟨hr.chain, ?_⟩ hwl.made hwr.made
    intro s hs
    have := hr.least_lt s hs
    by_cases hs' : 10 < s
    · exact .inl hs'
    · exact .inr ⟨he, by omega⟩

end

end Parser

end ArithLang
