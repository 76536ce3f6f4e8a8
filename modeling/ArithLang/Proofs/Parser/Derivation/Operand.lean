import ArithLang.Parser
import ArithLang.Proofs.Parser.Reads

/-!
Operands are read by the rules: over a lawful cursor, where fuel never runs out, a construct that
stands as an operand succeeds exactly as the rules say it may.
-/

namespace ArithLang

open LawfulCursor (Valid)
open TokenCursor (ahead)
open ArithLang.Parser (kind_ne)

variable {C : Type} [TokenCursor C] {p q : Parser C} {e : Expr} {n : Nat}

namespace Nested

/-- The steps of the next level read by the rules. -/
structure Follows [LawfulCursor C] (inner : Nested C) (n : Nat) : Prop where
  assignment {p q : Parser C} {e : Expr} : Valid p.cursor →
    (inner.assignment.run p = .ok e q ↔ ∃ k, n = k + 1 ∧ Parses k .assignment p e q)
  unary {p q : Parser C} {e : Expr} : Valid p.cursor → p.kind.startsUnary = true →
    (inner.unary.run p = .ok e q ↔ Parses n .operand p e q)
  climb {p q : Parser C} {e left : Expr} {start : Position} {least : Nat} : Valid p.cursor →
    ((inner.climb left start least).run p = .ok e q ↔
      ∃ k, n = k + 1 ∧ Parses k (.climb start least left) p e q)

end Nested

namespace Grammar

open Step

theorem numberLiteral_iff :
    numberLiteral.run p = .ok e q ↔ ∃ v, p.token.value = .number v ∧ p.Moves q ∧
      .number v (q.infoFrom p.token.start { raw := some p.raw, rawValue := some v }) = e := by
  rw [numberLiteral, run_current_bind]
  cases hv : p.token.value with
  | number v =>
    simp only [Value.number?, run_get_bind]
    constructor
    · intro h
      obtain ⟨_, p₁, hm, h⟩ := bind_eq_ok.1 h
      obtain ⟨rfl, rfl⟩ := pure_eq_ok.1 h
      exact ⟨v, rfl, advance_eq_ok.1 hm, rfl⟩
    · rintro ⟨_, h, hm, rfl⟩
      cases h
      rw [run_bind_of_ok (run_advance_of hm)]
      rfl
  | none | text => simpa [Value.number?] using unexpected_eq_ok

theorem identifier_iff :
    identifier.run p = .ok e q ↔ p.Moves q ∧
      .identifier (p.token.value.text?.getD "") (q.infoFrom p.token.start {}) = e := by
  rw [identifier, run_current_bind]
  constructor
  · intro h
    obtain ⟨_, p₁, hm, h⟩ := bind_eq_ok.1 h
    obtain ⟨rfl, rfl⟩ := pure_eq_ok.1 h
    exact ⟨advance_eq_ok.1 hm, rfl⟩
  · rintro ⟨hm, rfl⟩
    rw [run_bind_of_ok (run_advance_of hm)]
    rfl

variable [LawfulCursor C] {inner : Nested C}

theorem listTail_iff (hi : inner.Follows n) {start : Position} {fuel : Nat} {items : List Expr}
    (hv : Valid p.cursor) (hf : ahead p.cursor ≤ fuel) :
    (∃ others, (listTail inner fuel).run p = .ok others q ∧
      .sequence (items ++ others) (q.infoFrom start {}) = e) ↔
    Parses n (.items start items) p e q := by
  induction fuel generalizing p items with
  | zero =>
    have hk : p.kind = .eof := TokenCursor.eof_of_ahead hv (Nat.le_zero.1 hf)
    constructor
    · rintro ⟨_, h, rfl⟩
      obtain ⟨rfl, rfl⟩ := pure_eq_ok.1 h
      rw [List.append_nil]
      exact .itemsEnd (by simp [hk])
    · intro h
      cases h with
      | itemsEnd => exact ⟨[], rfl, by rw [List.append_nil]⟩
      | itemsMore h => simp [hk] at h
  | succ fuel ih =>
    rw [listTail]
    constructor
    · rintro ⟨_, h, rfl⟩
      obtain ⟨_, p₁, hc, h⟩ := bind_eq_ok.1 h
      obtain ⟨hk, hm, rfl⟩ | ⟨hk, rfl, rfl⟩ := eat_eq_ok.1 hc
      · obtain ⟨item, p₂, hitem, h⟩ := bind_eq_ok.1 h
        obtain ⟨others, p₃, hothers, h⟩ := bind_eq_ok.1 h
        obtain ⟨rfl, rfl⟩ := pure_eq_ok.1 h
        have hv₁ := hm.valid hv
        have := hm.ahead_lt hv (kind_ne (f := id) hk nofun)
        obtain ⟨k, rfl, hitem⟩ := (hi.assignment hv₁).1 hitem
        have := hitem.ahead_le hv₁
        refine .itemsMore hk hm hitem ((ih (hitem.valid hv₁) (by omega)).1 ⟨others, hothers, ?_⟩)
        rw [List.append_assoc, List.singleton_append]
      · obtain ⟨rfl, rfl⟩ := pure_eq_ok.1 h
        rw [List.append_nil]
        exact .itemsEnd hk
    · intro h
      cases h with
      | itemsEnd hk =>
        refine ⟨[], ?_, by rw [List.append_nil]⟩
        rw [run_bind_of_ok (run_eat_of_ne hk)]
        rfl
      | itemsMore hk hm hitem h =>
        have hv₁ := hm.valid hv
        have := hm.ahead_lt hv (kind_ne (f := id) hk nofun)
        have := hitem.ahead_le hv₁
        obtain ⟨others, hothers, rfl⟩ := (ih (hitem.valid hv₁) (by omega)).2 h
        refine ⟨_, ?_, by rw [List.append_assoc, List.singleton_append]⟩
        rw [← hk, run_bind_of_ok (run_eat_of hm), if_pos rfl,
          run_bind_of_ok ((hi.assignment hv₁).2 ⟨_, rfl, hitem⟩), run_bind_of_ok hothers]
        rfl

theorem sequence_iff (hi : inner.Follows n) (hv : Valid p.cursor) :
    (sequence inner).run p = .ok e q ↔ Parses n .expression p e q := by
  rw [sequence, run_startPosition_bind]
  constructor
  · intro h
    obtain ⟨first, p₁, hfirst, h⟩ := bind_eq_ok.1 h
    obtain ⟨k, rfl, hfirst⟩ := (hi.assignment hv).1 hfirst
    rw [run_looksAt_bind] at h
    split at h
    · next hk =>
      rw [run_remaining_bind] at h
      obtain ⟨others, p₂, hothers, h⟩ := bind_eq_ok.1 h
      obtain ⟨rfl, rfl⟩ := pure_eq_ok.1 h
      refine .sequence hfirst (eq_of_beq hk) ?_
      exact (listTail_iff hi (hfirst.valid hv) (TokenCursor.ahead_le _)).1 ⟨others, hothers, rfl⟩
    · next hk =>
      obtain ⟨rfl, rfl⟩ := pure_eq_ok.1 h
      exact .single hfirst (by simpa using hk)
  · intro h
    cases h with
    | single hfirst hk =>
      rw [run_bind_of_ok ((hi.assignment hv).2 ⟨_, rfl, hfirst⟩), run_looksAt_bind,
        if_neg (by simpa using hk)]
      rfl
    | sequence hfirst hk h =>
      obtain ⟨others, hothers, rfl⟩ :=
        (listTail_iff hi (hfirst.valid hv) (TokenCursor.ahead_le _)).2 h
      rw [run_bind_of_ok ((hi.assignment hv).2 ⟨_, rfl, hfirst⟩), run_looksAt_bind,
        if_pos (by simpa using hk), run_remaining_bind, run_bind_of_ok hothers]
      rfl

theorem parenthesized_iff (hi : inner.Follows n) (hv : Valid p.cursor) :
    (parenthesized inner).run p = .ok e q ↔
      ∃ e' p₁ p₂, p.Moves p₁ ∧ Parses n .expression p₁ e' p₂ ∧ p₂.kind = .parenR ∧ p₂.Moves q ∧
        e'.parenthesize p.token.start.offset = e := by
  rw [parenthesized, run_startPosition_bind]
  constructor
  · intro h
    obtain ⟨_, p₁, hm, h⟩ := bind_eq_ok.1 h
    obtain ⟨e', p₂, he, h⟩ := bind_eq_ok.1 h
    obtain ⟨_, p₃, hc, h⟩ := bind_eq_ok.1 h
    obtain ⟨rfl, rfl⟩ := pure_eq_ok.1 h
    have hm := advance_eq_ok.1 hm
    have hc := expect_eq_ok.1 hc
    exact ⟨e', p₁, p₂, hm, (sequence_iff hi (hm.valid hv)).1 he, hc.1, hc.2, rfl⟩
  · rintro ⟨e', p₁, p₂, hm, he, hk, hm', rfl⟩
    rw [run_bind_of_ok (run_advance_of hm),
      run_bind_of_ok ((sequence_iff hi (hm.valid hv)).2 he),
      run_bind_of_ok (run_expect_of hk hm')]
    rfl

theorem atom_iff (hi : inner.Follows n) (hv : Valid p.cursor) :
    (atom inner).run p = .ok e q ↔ Parses n .atom p e q := by
  rw [atom, run_current_bind, Parser.token_kind]
  constructor
  · intro h
    split at h
    · next hk =>
      obtain ⟨v, hv, hm, rfl⟩ := numberLiteral_iff.1 h
      exact .number hk hv hm
    · next hk =>
      obtain ⟨hm, rfl⟩ := identifier_iff.1 h
      exact .identifier hk hm
    · next hk =>
      obtain ⟨e', p₁, p₂, hm, he, hk', hm', rfl⟩ := (parenthesized_iff hi hv).1 h
      exact .parenthesized hk hm he hk' hm'
    · exact absurd h unexpected_eq_ok
  · intro h
    cases h with
    | number hk hv hm =>
      rw [hk]
      exact numberLiteral_iff.2 ⟨_, hv, hm, rfl⟩
    | identifier hk hm =>
      rw [hk]
      exact identifier_iff.2 ⟨hm, rfl⟩
    | parenthesized hk hm he hk' hm' =>
      rw [hk]
      exact (parenthesized_iff hi hv).2 ⟨_, _, _, hm, he, hk', hm', rfl⟩

theorem subscriptTail_iff (hi : inner.Follows n) {start : Position} {fuel : Nat} {base : Expr}
    (hv : Valid p.cursor) (hf : ahead p.cursor ≤ fuel) :
    (subscriptTail inner start fuel base).run p = .ok e q ↔ Parses n (.tail start base) p e q := by
  induction fuel generalizing p base with
  | zero =>
    have hk : p.kind = .eof := TokenCursor.eof_of_ahead hv (Nat.le_zero.1 hf)
    constructor
    · intro h
      obtain ⟨rfl, rfl⟩ := pure_eq_ok.1 h
      exact .tailEnd (by simp [hk])
    · intro h
      cases h with
      | tailEnd => rfl
      | tailMore h => simp [hk] at h
  | succ fuel ih =>
    rw [subscriptTail]
    constructor
    · intro h
      obtain ⟨_, p₁, hc, h⟩ := bind_eq_ok.1 h
      obtain ⟨hk, hm, rfl⟩ | ⟨hk, rfl, rfl⟩ := eat_eq_ok.1 hc
      · obtain ⟨property, p₂, hp, h⟩ := bind_eq_ok.1 h
        obtain ⟨_, p₃, hc', h⟩ := bind_eq_ok.1 h
        obtain ⟨hk', hm'⟩ := expect_eq_ok.1 hc'
        have hv₁ := hm.valid hv
        have hp := (sequence_iff hi hv₁).1 hp
        have hv₂ := hp.valid hv₁
        have := hm.ahead_lt hv (kind_ne (f := id) hk nofun)
        have := hp.ahead_le hv₁
        have := hm'.ahead_lt hv₂ (kind_ne (f := id) hk' nofun)
        rw [run_infoFrom_bind] at h
        exact .tailMore hk hm hp hk' hm' ((ih (hm'.valid hv₂) (by omega)).1 h)
      · obtain ⟨rfl, rfl⟩ := pure_eq_ok.1 h
        exact .tailEnd hk
    · intro h
      cases h with
      | tailEnd hk =>
        rw [run_bind_of_ok (run_eat_of_ne hk)]
        rfl
      | tailMore hk hm hp hk' hm' h =>
        have hv₁ := hm.valid hv
        have hv₂ := hp.valid hv₁
        have := hm.ahead_lt hv (kind_ne (f := id) hk nofun)
        have := hp.ahead_le hv₁
        have := hm'.ahead_lt hv₂ (kind_ne (f := id) hk' nofun)
        rw [← hk, run_bind_of_ok (run_eat_of hm), if_pos rfl,
          run_bind_of_ok ((sequence_iff hi hv₁).2 hp),
          run_bind_of_ok (run_expect_of hk' hm'), run_infoFrom_bind]
        exact (ih (hm'.valid hv₂) (by omega)).2 h

theorem subscripts_iff (hi : inner.Follows n) (hv : Valid p.cursor) :
    (subscripts inner).run p = .ok e q ↔ Parses n .subscripts p e q := by
  rw [subscripts, run_startPosition_bind, run_get_bind]
  constructor
  · intro h
    obtain ⟨base, p₁, hb, h⟩ := bind_eq_ok.1 h
    have hb := (atom_iff hi hv).1 hb
    rw [run_looksAt_bind] at h
    split at h
    · exact absurd h failHere_eq_ok
    · next ha =>
      rw [run_remaining_bind] at h
      refine .subscripts hb (by simpa using ha) ?_
      exact (subscriptTail_iff hi (hb.valid hv) (TokenCursor.ahead_le _)).1 h
  · intro h
    cases h with
    | subscripts hb ha h =>
      rw [run_bind_of_ok ((atom_iff hi hv).2 hb), run_looksAt_bind, if_neg (by simpa using ha),
        run_remaining_bind]
      exact (subscriptTail_iff hi (hb.valid hv) (TokenCursor.ahead_le _)).2 h

theorem postfixed_iff (hi : inner.Follows n) (hv : Valid p.cursor) :
    (postfixed inner).run p = .ok e q ↔ Parses n .postfixed p e q := by
  rw [postfixed, run_startPosition_bind]
  constructor
  · intro h
    obtain ⟨base, p₁, hb, h⟩ := bind_eq_ok.1 h
    have hb := (subscripts_iff hi hv).1 hb
    rw [run_looksAtPostfix_bind] at h
    split at h
    · next ha =>
      obtain ⟨_, _, hc, h⟩ := bind_eq_ok.1 h
      obtain ⟨ht, rfl⟩ := checkTarget_eq_ok.1 hc
      obtain ⟨op, _, hc, h⟩ := bind_eq_ok.1 h
      obtain ⟨hop, rfl⟩ := operator_eq_ok.1 hc
      obtain ⟨_, p₂, hm, h⟩ := bind_eq_ok.1 h
      rw [run_infoFrom_bind, run_looksAtPostfix_bind] at h
      split at h
      · exact absurd h failAt_eq_ok
      · next ha' =>
        obtain ⟨rfl, rfl⟩ := pure_eq_ok.1 h
        exact .postfixUpdate hb ha ht hop (advance_eq_ok.1 hm) (by simpa using ha')
    · next ha =>
      obtain ⟨rfl, rfl⟩ := pure_eq_ok.1 h
      exact .plain hb (by simpa using ha)
  · intro h
    cases h with
    | plain hb ha =>
      rw [run_bind_of_ok ((subscripts_iff hi hv).2 hb), run_looksAtPostfix_bind,
        if_neg (by simpa using ha)]
      rfl
    | postfixUpdate hb ha ht hop hm ha' =>
      rw [run_bind_of_ok ((subscripts_iff hi hv).2 hb), run_looksAtPostfix_bind, if_pos ha,
        run_bind_of_ok (run_checkTarget_of ht _),
        run_bind_of_ok (operator_eq_ok.2 ⟨hop, rfl⟩), run_bind_of_ok (run_advance_of hm),
        run_infoFrom_bind, run_looksAtPostfix_bind, if_neg (by simpa using ha')]
      rfl

theorem prefixUpdate_iff (hv : Valid p.cursor) (hk : p.kind = .incDec)
    (ho : ∀ {p q : Parser C} {e : Expr}, Valid p.cursor →
      ((operand inner).run p = .ok e q ↔ Parses n .operand p e q)) :
    (prefixUpdate inner).run p = .ok e q ↔ Parses (n + 1) .operand p e q := by
  rw [prefixUpdate, run_startPosition_bind]
  constructor
  · intro h
    obtain ⟨op, _, hc, h⟩ := bind_eq_ok.1 h
    obtain ⟨hop, rfl⟩ := operator_eq_ok.1 hc
    obtain ⟨_, p₁, hm, h⟩ := bind_eq_ok.1 h
    have hm := advance_eq_ok.1 hm
    rw [run_current_bind] at h
    obtain ⟨a, p₂, ha, h⟩ := bind_eq_ok.1 h
    obtain ⟨_, _, hc, h⟩ := bind_eq_ok.1 h
    obtain ⟨ht, rfl⟩ := checkTarget_eq_ok.1 hc
    obtain ⟨rfl, rfl⟩ := pure_eq_ok.1 h
    exact .prefixUpdate hk hop hm ((ho (hm.valid hv)).1 ha) ht
  · intro h
    cases h with
    | operand hk' => simp [hk, Kind.startsUnary] at hk'
    | prefixUpdate _ hop hm ha ht =>
      rw [run_bind_of_ok (operator_eq_ok.2 ⟨hop, rfl⟩), run_bind_of_ok (run_advance_of hm),
        run_current_bind, run_bind_of_ok ((ho (hm.valid hv)).2 ha),
        run_bind_of_ok (run_checkTarget_of ht _)]
      rfl
    | prefixUnary _ hk' => exact absurd hk hk'

theorem prefixUnary_iff (hv : Valid p.cursor)
    (hk : p.kind.startsUnary = true) (hk' : p.kind ≠ .incDec)
    (ho : ∀ {p q : Parser C} {e : Expr}, Valid p.cursor →
      ((operand inner).run p = .ok e q ↔ Parses n .operand p e q)) :
    (prefixUnary inner).run p = .ok e q ↔ Parses (n + 1) .operand p e q := by
  rw [prefixUnary, run_startPosition_bind]
  constructor
  · intro h
    obtain ⟨op, _, hc, h⟩ := bind_eq_ok.1 h
    obtain ⟨hop, rfl⟩ := operator_eq_ok.1 hc
    obtain ⟨_, p₁, hm, h⟩ := bind_eq_ok.1 h
    have hm := advance_eq_ok.1 hm
    rw [run_current_bind] at h
    obtain ⟨a, p₂, ha, h⟩ := bind_eq_ok.1 h
    rw [run_context_bind] at h
    split at h
    · exact absurd h failAt_eq_ok
    · next hd =>
      obtain ⟨rfl, rfl⟩ := pure_eq_ok.1 h
      exact .prefixUnary hk hk' hop hm ((ho (hm.valid hv)).1 ha) (by simpa using hd)
  · intro h
    cases h with
    | operand hk' => simp [hk] at hk'
    | prefixUpdate hk => exact absurd hk hk'
    | prefixUnary _ _ hop hm ha hd =>
      rw [run_bind_of_ok (operator_eq_ok.2 ⟨hop, rfl⟩), run_bind_of_ok (run_advance_of hm),
        run_current_bind, run_bind_of_ok ((ho (hm.valid hv)).2 ha), run_context_bind,
        if_neg (by simpa using hd)]
      rfl

theorem operand_iff (hi : inner.Follows n) (hv : Valid p.cursor) :
    (operand inner).run p = .ok e q ↔ Parses n .operand p e q := by
  rw [operand, run_current_bind]
  split
  · next hk => exact hi.unary hv hk
  · next hk =>
    have hk : p.kind.startsUnary = false := eq_false_of_ne_true hk
    rw [postfixed_iff hi hv]
    constructor
    · exact .operand hk
    · intro h
      cases h with
      | operand _ h => exact h
      | prefixUpdate hk' => simp [hk', Kind.startsUnary] at hk
      | prefixUnary hk' => simp [hk'] at hk

theorem unary_iff (hi : inner.Follows n) (hv : Valid p.cursor) (hk : p.kind.startsUnary = true) :
    (unary inner).run p = .ok e q ↔ Parses (n + 1) .operand p e q := by
  rw [unary, run_looksAt_bind]
  split
  · next hk' => exact prefixUpdate_iff hv (eq_of_beq hk') (operand_iff hi)
  · next hk' => exact prefixUnary_iff hv hk (by simpa using hk') (operand_iff hi)

end Grammar

end ArithLang
