import ArithLang.Proofs.Parser.Derivation.Operand

/-!
The parser reads by the rules: chains of operators, branches and assignments as operands do, and so an
expression on all its levels of nesting.
-/

namespace ArithLang

open LawfulCursor (Valid)
open TokenCursor (ahead)
open ArithLang.Parser (kind_ne)

variable {C : Type} [TokenCursor C] {p q : Parser C} {e : Expr} {n : Nat}

namespace Grammar

open Step

section

variable {inner : Nested C}

theorem checkPowerBase_eq_ok {left : Expr} {u : Unit} :
    (checkPowerBase p.kind left).run p = .ok u q ↔
      (p.kind = .exponent → left.isPowerBase = true) ∧ p = q := by
  unfold checkPowerBase Expr.isPowerBase
  split
  · next info =>
    split
    · next h =>
      simp only [Bool.and_eq_true, beq_iff_eq, bne_iff_ne, Bool.not_eq_true'] at h
      simp [h, failAt_eq_ok]
    · next h =>
      simp only [Bool.and_eq_true, beq_iff_eq, bne_iff_ne, Bool.not_eq_true'] at h
      rw [pure_eq_ok]
      grind
  · rw [pure_eq_ok]
    grind

theorem operator_map_eq_ok {α β : Type} {ofText? : String → Option α} {mk : α → β} {b : β} :
    (do return mk (← operator ofText?) : Step C β).run p = .ok b q ↔
      (p.operator? ofText?).map mk = some b ∧ p = q := by
  rw [bind_eq_ok]
  simp only [operator_eq_ok, pure_eq_ok, Option.map_eq_some_iff]
  grind

theorem binaryNode_eq_ok {node : Expr → Expr → Info → Expr} :
    (binaryNode p.kind).run p = .ok node q ↔ p.node? = some node ∧ p = q := by
  unfold binaryNode Parser.node?
  cases p.kind <;> exact operator_map_eq_ok

theorem run_checkPowerBase_of {least strength : Nat} {left : Expr}
    {node : Expr → Expr → Info → Expr} (h : p.OperatorAt least strength left node) :
    (checkPowerBase p.kind left).run p = .ok () p :=
  checkPowerBase_eq_ok.2 ⟨h.base, rfl⟩

/-- A turn of the loop: the operand after the operator, what binds tighter, and the turns after it. -/
theorem run_climb_succ {least strength : Nat} {left : Expr} {node : Expr → Expr → Info → Expr}
    {p₁ : Parser C} (hop : p.OperatorAt least strength left node) (hm : p.Moves p₁)
    (start : Position) (fuel : Nat) :
    (climb inner start least (fuel + 1) left).run p = (do
      let first ← operand inner
      let right ←
        (if p.kind.isRightAssociative then inner.climb first p₁.token.start (strength - 1)
        else climb inner p₁.token.start strength fuel first)
      climb inner start least fuel (node left right (← infoFrom start {}))).run p₁ := by
  rw [climb, run_current_bind]
  simp only [Parser.token_kind, hop.strength_eq]
  rw [if_neg (Nat.not_le_of_lt hop.least_lt), run_bind_of_ok (run_checkPowerBase_of hop),
    run_bind_of_ok (binaryNode_eq_ok.2 ⟨hop.node_eq, rfl⟩), run_bind_of_ok (run_advance_of hm),
    run_startPosition_bind]

/-- What is left of an assignment once its first token is none that has to be refused. -/
theorem run_assignment_of (hy : ¬ (p.kind = .yieldWord ∧ p.context.inGenerator = true)) :
    (assignment inner).run p = (do
      let left ← conditional inner
      if (← current).kind.isAssignment then
        let op ← operator AssignOp.ofText?
        checkTarget left "assignment expression"
        advance
        let right ← inner.assignment
        return Expr.assignment op left right (← infoFrom p.token.start {})
      else return left).run p.marked := by
  rw [assignment, run_current_bind, run_context_bind, if_neg (by simpa [Parser.kind] using hy),
    run_bind_of_ok run_markArrowStart]

/-- One turn of the loop: it stops, or it takes an operator with what stands to the right of it. -/
theorem climb_succ_eq_ok {start : Position} {least fuel : Nat} {left : Expr} :
    (climb inner start least (fuel + 1) left).run p = .ok e q ↔
      ((∀ s, chainStrength? p.kind = some s → s ≤ least) ∧ left = e ∧ p = q) ∨
      ∃ strength node p₁ first p₂ right p₃, p.OperatorAt least strength left node ∧ p.Moves p₁ ∧
        (operand inner).run p₁ = .ok first p₂ ∧
        (if p.kind.isRightAssociative then inner.climb first p₁.token.start (strength - 1)
          else climb inner p₁.token.start strength fuel first).run p₂ = .ok right p₃ ∧
        (climb inner start least fuel (node left right (p₃.infoFrom start {}))).run p₃ = .ok e q := by
  constructor
  · intro h
    rw [climb, run_current_bind] at h
    simp only [Parser.token_kind] at h
    split at h
    · next hs =>
      obtain ⟨rfl, rfl⟩ := pure_eq_ok.1 h
      exact .inl ⟨fun _ hs' => absurd (hs.symm.trans hs') nofun, rfl, rfl⟩
    · next strength hs =>
      split at h
      · next hle =>
        obtain ⟨rfl, rfl⟩ := pure_eq_ok.1 h
        exact .inl ⟨fun _ hs' => Option.some.inj (hs.symm.trans hs') ▸ hle, rfl, rfl⟩
      · next hlt =>
        obtain ⟨_, _, hc, h⟩ := bind_eq_ok.1 h
        obtain ⟨hbase, rfl⟩ := checkPowerBase_eq_ok.1 hc
        obtain ⟨node, _, hc, h⟩ := bind_eq_ok.1 h
        obtain ⟨hnode, rfl⟩ := binaryNode_eq_ok.1 hc
        obtain ⟨_, p₁, hm, h⟩ := bind_eq_ok.1 h
        rw [run_startPosition_bind] at h
        obtain ⟨first, p₂, hfirst, h⟩ := bind_eq_ok.1 h
        obtain ⟨right, p₃, hright, h⟩ := bind_eq_ok.1 h
        rw [run_infoFrom_bind] at h
        exact .inr ⟨strength, node, p₁, first, p₂, right, p₃,
          ⟨hs, Nat.lt_of_not_le hlt, hbase, hnode⟩, advance_eq_ok.1 hm, hfirst, hright, h⟩
  · rintro (⟨hs, rfl, rfl⟩ | ⟨strength, node, p₁, first, p₂, right, p₃, hop, hm, hfirst, hright, h⟩)
    · rw [climb, run_current_bind]
      simp only [Parser.token_kind]
      split
      · rfl
      · next hs' =>
        rw [if_pos (hs _ hs')]
        rfl
    · rw [run_climb_succ hop hm, run_bind_of_ok hfirst, run_bind_of_ok hright, run_infoFrom_bind]
      exact h

end

variable [LawfulCursor C] {inner : Nested C}

theorem climb_iff (hi : inner.Follows n) {start : Position} {least fuel : Nat} {left : Expr}
    (hv : Valid p.cursor) (hf : ahead p.cursor ≤ fuel) :
    (climb inner start least fuel left).run p = .ok e q ↔
      Parses n (.climb start least left) p e q := by
  induction fuel generalizing p q e start least left with
  | zero =>
    have hk : p.kind = .eof := TokenCursor.eof_of_ahead hv (Nat.le_zero.1 hf)
    constructor
    · intro h
      obtain ⟨rfl, rfl⟩ := pure_eq_ok.1 h
      exact .climbEnd (by simp [hk, chainStrength?, Kind.strength?])
    · intro h
      cases h with
      | climbEnd => rfl
      | climbLeft hop | climbRight hop => exact absurd hk (kind_ne hop.strength_eq nofun)
  | succ fuel ih =>
    rw [climb_succ_eq_ok]
    -- The moves past the operator and its operands leave fuel for the turns that follow.
    have turn {strength : Nat} {node : Expr → Expr → Info → Expr} {p₁ : Parser C}
        (hop : p.OperatorAt least strength left node) (hm : p.Moves p₁) :
        Valid p₁.cursor ∧ ahead p₁.cursor ≤ fuel := by
      have := hm.ahead_lt hv (kind_ne hop.strength_eq nofun)
      exact ⟨hm.valid hv, by omega⟩
    constructor
    · rintro (⟨hs, rfl, rfl⟩ | ⟨strength, node, p₁, first, p₂, right, p₃, hop, hm, hfirst, hright, h⟩)
      · exact .climbEnd hs
      · obtain ⟨hv₁, hf₁⟩ := turn hop hm
        have hfirst := (operand_iff hi hv₁).1 hfirst
        have hv₂ := hfirst.valid hv₁
        have hf₂ := Nat.le_trans (hfirst.ahead_le hv₁) hf₁
        by_cases hr : p.kind.isRightAssociative = true
        · rw [if_pos hr] at hright
          obtain ⟨k, rfl, hright⟩ := (hi.climb hv₂).1 hright
          have hf₃ := Nat.le_trans (hright.ahead_le hv₂) hf₂
          exact .climbRight hop hr hm hfirst hright ((ih (hright.valid hv₂) hf₃).1 h)
        · rw [if_neg hr] at hright
          have hright := (ih hv₂ hf₂).1 hright
          have hf₃ := Nat.le_trans (hright.ahead_le hv₂) hf₂
          exact .climbLeft hop (eq_false_of_ne_true hr) hm hfirst hright
            ((ih (hright.valid hv₂) hf₃).1 h)
    · intro h
      cases h with
      | climbEnd hs => exact .inl ⟨hs, rfl, rfl⟩
      | climbLeft hop hr hm hfirst hright h =>
        obtain ⟨hv₁, hf₁⟩ := turn hop hm
        have hv₂ := hfirst.valid hv₁
        have hf₂ := Nat.le_trans (hfirst.ahead_le hv₁) hf₁
        have hf₃ := Nat.le_trans (hright.ahead_le hv₂) hf₂
        refine .inr ⟨_, _, _, _, _, _, _, hop, hm, (operand_iff hi hv₁).2 hfirst, ?_,
          (ih (hright.valid hv₂) hf₃).2 h⟩
        rw [if_neg (by simp [hr])]
        exact (ih hv₂ hf₂).2 hright
      | climbRight hop hr hm hfirst hright h =>
        obtain ⟨hv₁, hf₁⟩ := turn hop hm
        have hv₂ := hfirst.valid hv₁
        have hf₂ := Nat.le_trans (hfirst.ahead_le hv₁) hf₁
        have hf₃ := Nat.le_trans (hright.ahead_le hv₂) hf₂
        refine .inr ⟨_, _, _, _, _, _, _, hop, hm, (operand_iff hi hv₁).2 hfirst, ?_,
          (ih (hright.valid hv₂) hf₃).2 h⟩
        rw [if_pos hr]
        exact (hi.climb hv₂).2 ⟨_, rfl, hright⟩

theorem chain_iff (hi : inner.Follows n) (hv : Valid p.cursor) :
    (chain inner).run p = .ok e q ↔ Parses n .chain p e q := by
  rw [chain, run_startPosition_bind]
  constructor
  · intro h
    obtain ⟨first, p₁, hfirst, h⟩ := bind_eq_ok.1 h
    have hfirst := (operand_iff hi hv).1 hfirst
    rw [run_remaining_bind] at h
    exact .chain hfirst ((climb_iff hi (hfirst.valid hv) (TokenCursor.ahead_le _)).1 h)
  · intro h
    cases h with
    | chain hfirst h =>
      rw [run_bind_of_ok ((operand_iff hi hv).2 hfirst), run_remaining_bind]
      exact (climb_iff hi (hfirst.valid hv) (TokenCursor.ahead_le _)).2 h

theorem conditional_iff (hi : inner.Follows n) (hv : Valid p.cursor) :
    (conditional inner).run p = .ok e q ↔ Parses n .conditional p e q := by
  rw [conditional, run_startPosition_bind]
  constructor
  · intro h
    obtain ⟨test, p₁, htest, h⟩ := bind_eq_ok.1 h
    have htest := (chain_iff hi hv).1 htest
    have hv₁ := htest.valid hv
    obtain ⟨_, p₂, hc, h⟩ := bind_eq_ok.1 h
    obtain ⟨hk, hm, rfl⟩ | ⟨hk, rfl, rfl⟩ := eat_eq_ok.1 hc
    · obtain ⟨consequent, p₃, hcons, h⟩ := bind_eq_ok.1 h
      have hv₂ := hm.valid hv₁
      obtain ⟨k, rfl, hcons⟩ := (hi.assignment hv₂).1 hcons
      obtain ⟨_, p₄, hc, h⟩ := bind_eq_ok.1 h
      obtain ⟨hk', hm'⟩ := expect_eq_ok.1 hc
      have hv₄ := hm'.valid (hcons.valid hv₂)
      obtain ⟨alternate, p₅, halt, h⟩ := bind_eq_ok.1 h
      obtain ⟨_, hl, halt⟩ := (hi.assignment hv₄).1 halt
      cases hl
      obtain ⟨rfl, rfl⟩ := pure_eq_ok.1 h
      exact .conditional htest hk hm hcons hk' hm' halt
    · obtain ⟨rfl, rfl⟩ := pure_eq_ok.1 h
      exact .unconditional htest hk
  · intro h
    cases h with
    | unconditional htest hk =>
      rw [run_bind_of_ok ((chain_iff hi hv).2 htest), run_bind_of_ok (run_eat_of_ne hk)]
      rfl
    | conditional htest hk hm hcons hk' hm' halt =>
      have hv₂ := hm.valid (htest.valid hv)
      have hv₄ := hm'.valid (hcons.valid hv₂)
      rw [run_bind_of_ok ((chain_iff hi hv).2 htest), ← hk, run_bind_of_ok (run_eat_of hm),
        if_pos rfl, run_bind_of_ok ((hi.assignment hv₂).2 ⟨_, rfl, hcons⟩),
        run_bind_of_ok (run_expect_of hk' hm'),
        run_bind_of_ok ((hi.assignment hv₄).2 ⟨_, rfl, halt⟩)]
      rfl

theorem assignment_iff (hi : inner.Follows n) (hv : Valid p.cursor) :
    (assignment inner).run p = .ok e q ↔ Parses n .assignment p e q := by
  have hv' : Valid p.marked.cursor := p.marked_cursor.symm ▸ hv
  constructor
  · intro h
    by_cases hy : p.kind = .yieldWord ∧ p.context.inGenerator = true
    · rw [assignment, run_current_bind, run_context_bind,
        if_pos (by simpa [Parser.kind] using hy)] at h
      exact absurd h failHere_eq_ok
    · rw [run_assignment_of hy] at h
      obtain ⟨left, p₁, hleft, h⟩ := bind_eq_ok.1 h
      have hleft := (conditional_iff hi hv').1 hleft
      rw [run_current_bind] at h
      split at h
      · next hk =>
        obtain ⟨op, _, hc, h⟩ := bind_eq_ok.1 h
        obtain ⟨hop, rfl⟩ := operator_eq_ok.1 hc
        obtain ⟨_, _, hc, h⟩ := bind_eq_ok.1 h
        obtain ⟨ht, rfl⟩ := checkTarget_eq_ok.1 hc
        obtain ⟨_, p₂, hm, h⟩ := bind_eq_ok.1 h
        have hm := advance_eq_ok.1 hm
        obtain ⟨right, p₃, hright, h⟩ := bind_eq_ok.1 h
        obtain ⟨k, rfl, hright⟩ := (hi.assignment (hm.valid (hleft.valid hv'))).1 hright
        obtain ⟨rfl, rfl⟩ := pure_eq_ok.1 h
        exact .assignment hy hleft hk hop ht hm hright
      · next hk =>
        obtain ⟨rfl, rfl⟩ := pure_eq_ok.1 h
        exact .unassigned hy hleft (eq_false_of_ne_true hk)
  · intro h
    cases h with
    | unassigned hy hleft hk =>
      rw [run_assignment_of hy, run_bind_of_ok ((conditional_iff hi hv').2 hleft),
        run_current_bind, if_neg (ne_true_of_eq_false hk)]
      rfl
    | assignment hy hleft hk hop ht hm hright =>
      rw [run_assignment_of hy, run_bind_of_ok ((conditional_iff hi hv').2 hleft),
        run_current_bind, if_pos hk,
        run_bind_of_ok (operator_eq_ok.2 ⟨hop, rfl⟩), run_bind_of_ok (run_checkTarget_of ht _),
        run_bind_of_ok (run_advance_of hm),
        run_bind_of_ok ((hi.assignment (hm.valid (hleft.valid hv'))).2 ⟨_, rfl, hright⟩)]
      rfl

end Grammar

variable [LawfulCursor C]

open Step Nested in
theorem Nested.follows_withLevels (n : Nat) : (withLevels n : Nested C).Follows n := by
  induction n with
  | zero =>
    constructor
    · intro p q e _
      simpa [withLevels] using Step.failHere_eq_ok
    · intro p q e _ hk
      constructor
      · intro h
        exact absurd h Step.failHere_eq_ok
      · intro h
        cases h with
        | operand hk' => simp [hk] at hk'
    · intro p q e left start least _
      simpa [withLevels] using Step.failHere_eq_ok
  | succ n ih =>
    constructor
    · intro p q e hv
      simp only [Nat.add_right_cancel_iff, exists_eq_left']
      exact Grammar.assignment_iff ih hv
    · intro p q e hv hk
      exact Grammar.unary_iff ih hv hk
    · intro p q e left start least hv
      simp only [Nat.add_right_cancel_iff, exists_eq_left']
      change (remaining >>= fun fuel => Grammar.climb (withLevels n) start least fuel left).run p = _ ↔ _
      rw [run_remaining_bind]
      exact Grammar.climb_iff ih hv (TokenCursor.ahead_le _)

namespace Parser

theorem expression_iff (hv : Valid p.cursor) :
    expression.run p = .ok e q ↔ Parses maxNesting .expression p e q :=
  Grammar.sequence_iff (Nested.follows_withLevels maxNesting) hv

theorem expressionToEnd_iff (hv : Valid p.cursor) :
    expressionToEnd.run p = .ok e q ↔ Parses maxNesting .expression p e q ∧ q.kind = .eof := by
  rw [expressionToEnd]
  constructor
  · intro h
    obtain ⟨e', p₁, he, h⟩ := Step.bind_eq_ok.1 h
    rw [Step.run_looksAt_bind] at h
    split at h
    · next hk =>
      obtain ⟨rfl, rfl⟩ := Step.pure_eq_ok.1 h
      exact ⟨(expression_iff hv).1 he, eq_of_beq hk⟩
    · exact absurd h Step.unexpected_eq_ok
  · rintro ⟨he, hk⟩
    rw [Step.run_bind_of_ok ((expression_iff hv).2 he), Step.run_looksAt_bind, if_pos (by simp [hk])]
    rfl

end Parser

end ArithLang
