import ArithLang.Proofs.Parser.Strict

/-!
The recursion of the grammar laid open. A construct asks for the readings that it is made of, and these
are given to it; neither a bound nor a fuel is part of it. What it may ask for is said once for all: a
reading further on, or one of a tighter construct at the same token, with no more levels of nesting.
-/

namespace ArithLang

open Grammar Step
open ArithLang.Parser (kind_ne)

/-- What is read by each goal, with so many levels of nesting left. -/
abbrev Readings (C : Type) := Nat → Goal → Step C Expr

/-- A reading at work: where it begins, by which goal, and with how many levels of nesting left. -/
structure Activation (C : Type) where
  levels : Nat
  goal : Goal
  parser : Parser C

variable {C : Type} [TokenCursor C]

namespace Step

/-- A step on the next level of nesting, if one is left. -/
def deeper (n : Nat) (step : Nat → Step C Expr) : Step C Expr :=
  match n with
  | 0 => failHere .nestedTooDeeply
  | n + 1 => step n

/-- A prefix operator with its operand. -/
def prefixed (operand : Step C Expr) : Step C Expr := do
  if ← looksAt .incDec then
    let start ← startPosition
    let op ← operator UpdateOp.ofText?
    advance
    let kind := (← current).kind
    let argument ← operand
    checkTarget argument "prefix operation"
    return .update op true argument (← infoFrom start (argumentExtra kind argument))
  else
    let start ← startPosition
    let op ← operator UnaryOp.ofText?
    advance
    let kind := (← current).kind
    let argument ← operand
    if (← context).strict && op == .delete && argument.isIdentifier then
      failAt .deleteOfName start.offset
    else
      return .unary op true argument (← infoFrom start (argumentExtra kind argument))

/-- A postfix operator of an expression, if there is one. -/
def withPostfix (start : Position) (base : Expr) : Step C Expr := do
  if ← looksAtPostfix then
    checkTarget base "postfix operation"
    let op ← operator UpdateOp.ofText?
    advance
    let e := Expr.update op false base (← infoFrom start {})
    if ← looksAtPostfix then failAt (.invalidTarget "postfix operation") e.span.start.offset
    else return e
  else return base

end Step

namespace Goal

/-- One construct, or one turn of a loop, made of other readings. -/
def body (read : Readings C) (n : Nat) : Goal → Step C Expr
  | expression => do
    let start ← startPosition
    let first ← deeper n (read · assignment)
    if ← looksAt .comma then read n (items start [first]) else return first
  | items start before => do
    if ← eat .comma then
      let item ← deeper n (read · assignment)
      read n (items start (before ++ [item]))
    else return .sequence before (← infoFrom start {})
  | assignment => do
    let token ← current
    if token.kind == .yieldWord && (← context).inGenerator then
      failHere (.unsupported "yield expression")
    else
      markArrowStart token
      let left ← read n conditional
      if (← current).kind.isAssignment then
        let op ← operator AssignOp.ofText?
        checkTarget left "assignment expression"
        advance
        let right ← deeper n (read · assignment)
        return .assignment op left right (← infoFrom token.start {})
      else return left
  | conditional => do
    let start ← startPosition
    let test ← read n chain
    if ← eat .question then
      let consequent ← deeper n (read · assignment)
      expect .colon
      let alternate ← deeper n (read · assignment)
      return .conditional test consequent alternate (← infoFrom start {})
    else return test
  | chain => do
    let start ← startPosition
    let first ← read n operand
    read n (climb start 0 first)
  | climb start least left => do
    let kind := (← current).kind
    match chainStrength? kind with
    | none => return left
    | some strength =>
      if strength ≤ least then return left
      else
        checkPowerBase kind left
        let node ← binaryNode kind
        advance
        let rightStart ← startPosition
        let first ← read n operand
        let right ←
          (if kind.isRightAssociative then
            deeper n (read · (climb rightStart (strength - 1) first))
          else read n (climb rightStart strength first))
        read n (climb start least (node left right (← infoFrom start {})))
  | operand => do
    if (← current).kind.startsUnary then deeper n fun k => prefixed (read k operand)
    else read n postfixed
  | postfixed => do
    let start ← startPosition
    let base ← read n subscripts
    withPostfix start base
  | subscripts => do
    let start ← startPosition
    let mayBeArrow := (← get).arrowStart == some start.offset
    let base ← read n atom
    if mayBeArrow && (← looksAt .arrow) then failHere (.unsupported "arrow function")
    else read n (tail start base)
  | tail start base => do
    if ← eat .bracketL then
      let property ← read n expression
      expect .bracketR
      read n (tail start (.member base property true (← infoFrom start {})))
    else return base
  | atom => do
    match (← current).kind with
    | .num => numberLiteral
    | .name => identifier
    | .parenL =>
      let start ← startPosition
      advance
      let e ← read n expression
      expect .parenR
      return e.parenthesize start.offset
    | _ => unexpected "expression"

/-- The looser a construct, the higher it ranks; lowest of all are the loops. -/
@[simp] def rank : Goal → Nat
  | tail .. => 0
  | climb .. => 1
  | items .. => 2
  | atom => 3
  | subscripts => 4
  | postfixed => 5
  | operand => 6
  | chain => 7
  | conditional => 8
  | assignment => 9
  | expression => 10

/-- The strength that an operator must exceed to be taken. -/
@[simp] def threshold : Goal → Nat
  | climb _ least _ => least
  | _ => 0

end Goal

namespace Parser

/-- The parser has moved on, past some tokens or none. -/
def Goes (p q : Parser C) : Prop := ∃ ts, p.Reads ts q

/-- The parser has moved on, past one token at least. -/
def GoesPast (p q : Parser C) : Prop := ∃ t ts, p.Reads (t :: ts) q

variable {p q r : Parser C}

theorem Goes.refl (p : Parser C) : p.Goes p := ⟨[], .refl p⟩

theorem GoesPast.goes (h : p.GoesPast q) : p.Goes q := by
  obtain ⟨t, ts, h⟩ := h
  exact ⟨t :: ts, h⟩

theorem Goes.trans (h : p.Goes q) (h' : q.Goes r) : p.Goes r := by
  obtain ⟨ts, h⟩ := h
  obtain ⟨us, h'⟩ := h'
  exact ⟨ts ++ us, h.trans h'⟩

theorem GoesPast.trans (h : p.GoesPast q) (h' : q.Goes r) : p.GoesPast r := by
  obtain ⟨t, ts, h⟩ := h
  obtain ⟨us, h'⟩ := h'
  exact ⟨t, ts ++ us, h.trans h'⟩

theorem Goes.trans_past (h : p.Goes q) (h' : q.GoesPast r) : p.GoesPast r := by
  obtain ⟨ts, h⟩ := h
  obtain ⟨u, us, h'⟩ := h'
  cases ts with
  | nil => exact ⟨u, us, h.trans h'⟩
  | cons t ts => exact ⟨t, ts ++ u :: us, h.trans h'⟩

theorem Moves.goesPast (h : p.Moves q) (hk : p.kind ≠ .eof) : p.GoesPast q :=
  ⟨_, [], h.reads hk⟩

theorem goes_marked (p : Parser C) : p.Goes p.marked :=
  ⟨[], p.marked_cursor ▸ .refl, p.marked_context⟩

end Parser

/-- A step that, where it succeeds, has only moved on. -/
def Step.Goes (step : Step C Expr) : Prop := ∀ p e q, step.run p = .ok e q → p.Goes q

namespace Activation

def result (read : Readings C) (a : Activation C) : EStateM.Result SyntaxError (Parser C) Expr :=
  (read a.levels a.goal).run a.parser

/-- What the construct itself comes to, made of other readings. -/
def unfold (read : Readings C) (a : Activation C) : EStateM.Result SyntaxError (Parser C) Expr :=
  (a.goal.body read a.levels).run a.parser

/-- Made of these readings, what `a` comes to depends on what `b` does. -/
def AsksFor (read : Readings C) (a b : Activation C) : Prop :=
  ∃ read' : Readings C, (∀ b', b' ≠ b → b'.result read' = b'.result read) ∧
    a.unfold read' ≠ a.unfold read

/-- Made of whatever readings that only move on, `a` may ask for `b`. -/
def Asks (a b : Activation C) : Prop :=
  ∃ read : Readings C, (∀ n goal, (read n goal).Goes) ∧ a.AsksFor read b

/-- One reading follows another on the way: further on, or at the same token by a tighter construct. -/
structure Proceeds (a b : Activation C) : Prop where
  levels_le : b.levels ≤ a.levels
  goes : a.parser.GoesPast b.parser ∨ a.parser.Goes b.parser ∧ b.goal.rank < a.goal.rank
  threshold_le : b.goal.threshold ≤ max 10 a.goal.threshold

/-- One reading leads to another: a loop or a chain does not begin again with a lower threshold. -/
structure LeadsTo (a b : Activation C) : Prop extends a.Proceeds b where
  threshold_ge : a.goal.rank = b.goal.rank → a.goal.threshold ≤ b.goal.threshold

/-- The readings that `a` may lead to come to the same. -/
def AgreeAfter (read read' : Readings C) (a : Activation C) : Prop :=
  ∀ b, a.LeadsTo b → b.result read = b.result read'

variable {a b c : Activation C} {read read' : Readings C} {m n : Nat} {goal g : Goal} {p q : Parser C}

theorem Proceeds.trans (h : a.Proceeds b) (h' : b.Proceeds c) : a.Proceeds c where
  levels_le := Nat.le_trans h'.levels_le h.levels_le
  threshold_le := by
    have := h.threshold_le
    have := h'.threshold_le
    omega
  goes := by
    obtain hp | ⟨hg, hr⟩ := h.goes
    · obtain hp' | ⟨hg', -⟩ := h'.goes
      · exact .inl (hp.trans hp'.goes)
      · exact .inl (hp.trans hg')
    · obtain hp' | ⟨hg', hr'⟩ := h'.goes
      · exact .inl (hg.trans_past hp')
      · exact .inr ⟨hg.trans hg', Nat.lt_trans hr' hr⟩

/-- What follows and is as loose is past a token. -/
theorem Proceeds.goesPast (h : a.Proceeds b) (hr : a.goal.rank ≤ b.goal.rank) :
    a.parser.GoesPast b.parser := by
  obtain hp | ⟨-, hlt⟩ := h.goes
  · exact hp
  · exact absurd hlt (Nat.not_lt_of_le hr)

/-- A construct that fails as one of its readings does, however that fails, asks for it. -/
theorem asksFor_of_fails (h : ∀ read' : Readings C, (∀ b', b' ≠ b → b'.result read' = b'.result read) →
    ∀ e q, b.result read' = .error e q → ∃ r, a.unfold read' = .error e r) : a.AsksFor read b := by
  classical
  -- of two errors that `b` may be given, one at least is not what `a` comes to by itself
  let refuse : SyntaxError → Readings C := fun e n goal p =>
    if Activation.mk n goal p = b then .error e p else (read n goal).run p
  have fails (e : SyntaxError) : ∃ r, a.unfold (refuse e) = .error e r :=
    h (refuse e) (fun b' hb => if_neg hb) e b.parser (if_pos rfl)
  obtain ⟨r, hr⟩ := fails (.fault .nestedTooDeeply 0)
  obtain ⟨s, hs⟩ := fails (.fault .nestedTooDeeply 1)
  by_cases heq : a.unfold (refuse (.fault .nestedTooDeeply 0)) = a.unfold read
  · refine ⟨refuse (.fault .nestedTooDeeply 1), fun b' hb => if_neg hb, fun heq' => ?_⟩
    cases hr.symm.trans (heq.trans (heq'.symm.trans hs))
  · exact ⟨refuse (.fault .nestedTooDeeply 0), fun b' hb => if_neg hb, heq⟩

/-- At the same token or further on, a tighter construct. -/
theorem AgreeAfter.tighter (h : AgreeAfter read read' ⟨n, goal, p⟩) (hm : m ≤ n) (hq : p.Goes q)
    (hr : g.rank < goal.rank) (ht : g.threshold = 0) : (read m g).run q = (read' m g).run q :=
  h ⟨m, g, q⟩
    { levels_le := hm
      goes := .inr ⟨hq, hr⟩
      threshold_le := ht ▸ Nat.zero_le _
      threshold_ge := fun he => absurd he.symm (Nat.ne_of_lt hr) }

/-- Further on, another construct. -/
theorem AgreeAfter.another (h : AgreeAfter read read' ⟨n, goal, p⟩) (hm : m ≤ n) (hq : p.GoesPast q)
    (hr : goal.rank ≠ g.rank) (ht : g.threshold = 0) : (read m g).run q = (read' m g).run q :=
  h ⟨m, g, q⟩
    { levels_le := hm
      goes := .inl hq
      threshold_le := ht ▸ Nat.zero_le _
      threshold_ge := fun he => absurd he hr }

/-- Further on, the same construct again. -/
theorem AgreeAfter.again (h : AgreeAfter read read' ⟨n, goal, p⟩) (hm : m ≤ n) (hq : p.GoesPast q)
    (hge : goal.threshold ≤ g.threshold) (hle : g.threshold ≤ max 10 goal.threshold) :
    (read m g).run q = (read' m g).run q :=
  h ⟨m, g, q⟩ { levels_le := hm, goes := .inl hq, threshold_le := hle, threshold_ge := fun _ => hge }

end Activation

namespace Step

variable {α β : Type} {p : Parser C}

/-! Two steps come to the same if they are made alike and what is put into them comes to the same. -/

omit [TokenCursor C] in
theorem run_bind_congr {x y : Step C α} {f g : α → Step C β} (hx : x.run p = y.run p)
    (hf : ∀ a q, x.run p = .ok a q → (f a).run q = (g a).run q) :
    (x >>= f).run p = (y >>= g).run p := by
  rw [EStateM.run_bind, EStateM.run_bind, ← hx]
  cases hr : x.run p with
  | ok a q => exact hf a q hr
  | error e q => rfl

theorem advance_congr {f g : Unit → Step C β} (hk : p.kind ≠ .eof)
    (hf : ∀ q, p.GoesPast q → (f ()).run q = (g ()).run q) :
    (advance >>= f).run p = (advance >>= g).run p :=
  run_bind_congr rfl fun _ q hq => hf q ((advance_eq_ok.1 hq).goesPast hk)

theorem eat_congr {k : Kind} {f g : Bool → Step C β} (hk : k ≠ .eof)
    (hf : ∀ q, p.GoesPast q → (f true).run q = (g true).run q)
    (hf' : (f false).run p = (g false).run p) : (eat k >>= f).run p = (eat k >>= g).run p := by
  rw [run_eat_bind, run_eat_bind]
  split
  · next h => exact advance_congr (h ▸ hk) hf
  · exact hf'

theorem expect_congr {k : Kind} {f g : Unit → Step C β} (hk : k ≠ .eof)
    (hf : ∀ q, p.GoesPast q → (f ()).run q = (g ()).run q) :
    (expect k >>= f).run p = (expect k >>= g).run p := by
  rw [run_expect_bind, run_expect_bind]
  split
  · next h => exact advance_congr (h ▸ hk) hf
  · rfl

theorem operator_congr {ofText? : String → Option α} {f g : α → Step C β}
    (hf : ∀ op, (f op).run p = (g op).run p) :
    (operator ofText? >>= f).run p = (operator ofText? >>= g).run p := by
  rw [run_operator_bind, run_operator_bind]
  split
  · exact hf _
  · rfl

omit [TokenCursor C] in
theorem checkTarget_congr {e : Expr} {place : String} {f g : Unit → Step C β}
    (hf : (f ()).run p = (g ()).run p) :
    (checkTarget e place >>= f).run p = (checkTarget e place >>= g).run p := by
  rw [run_checkTarget_bind, run_checkTarget_bind, hf]

theorem deeper_congr {n : Nat} {x y : Nat → Step C Expr}
    (h : ∀ k, k ≤ n → (x k).run p = (y k).run p) : (deeper n x).run p = (deeper n y).run p := by
  cases n with
  | zero => rfl
  | succ n => exact h n (Nat.le_succ n)

theorem deeper_goes {n : Nat} {x : Nat → Step C Expr} (h : ∀ k, (x k).Goes) : (deeper n x).Goes := by
  cases n with
  | zero => exact fun p e q hq => absurd hq failHere_eq_ok
  | succ n => exact h n

theorem prefixed_congr {x y : Step C Expr} (hk : p.kind.startsUnary = true)
    (h : ∀ q, p.GoesPast q → x.run q = y.run q) : (prefixed x).run p = (prefixed y).run p := by
  have hn : p.kind ≠ .eof := kind_ne hk nofun
  rw [prefixed, prefixed, run_looksAt_bind, run_looksAt_bind]
  split
  all_goals
    rw [run_startPosition_bind, run_startPosition_bind]
    refine operator_congr fun op => advance_congr hn fun q hq => ?_
    rw [run_current_bind, run_current_bind]
    exact run_bind_congr (h q hq) fun _ _ _ => rfl

end Step

namespace Goal

open Activation (AgreeAfter)

theorem chainStrength?_le {k : Kind} {strength : Nat} (h : chainStrength? k = some strength) :
    strength ≤ 10 := by
  unfold chainStrength? Kind.strength? at h
  grind

variable {read read' : Readings C} {n : Nat} {p : Parser C} (hg : ∀ n goal, (read n goal).Goes)

include hg

theorem expression_congr (h : AgreeAfter read read' ⟨n, expression, p⟩) :
    (body read n expression).run p = (body read' n expression).run p := by
  rw [body, body, run_startPosition_bind, run_startPosition_bind]
  refine run_bind_congr (deeper_congr fun k hk => h.tighter hk (.refl p) (by simp) rfl)
    fun first q hq => ?_
  have hq := deeper_goes (hg · assignment) _ _ _ hq
  rw [run_looksAt_bind, run_looksAt_bind]
  split
  · exact h.tighter (Nat.le_refl n) hq (by simp) rfl
  · rfl

theorem items_congr {start : Position} {before : List Expr}
    (h : AgreeAfter read read' ⟨n, items start before, p⟩) :
    (body read n (items start before)).run p = (body read' n (items start before)).run p := by
  rw [body, body]
  refine eat_congr nofun (fun q hq => ?_) rfl
  refine run_bind_congr (deeper_congr fun k hk => h.another hk hq (by simp) rfl) fun item r hr => ?_
  have hr := deeper_goes (hg · assignment) _ _ _ hr
  exact h.again (Nat.le_refl n) (hq.trans hr) (Nat.le_refl _) (Nat.zero_le _)

theorem assignment_congr (h : AgreeAfter read read' ⟨n, assignment, p⟩) :
    (body read n assignment).run p = (body read' n assignment).run p := by
  rw [body, body, run_current_bind, run_current_bind, run_context_bind, run_context_bind]
  split
  · rfl
  · rw [run_bind_of_ok run_markArrowStart, run_bind_of_ok run_markArrowStart]
    refine run_bind_congr (h.tighter (Nat.le_refl n) p.goes_marked (by simp) rfl) fun left q hq => ?_
    have hq := p.goes_marked.trans (hg _ _ _ _ _ hq)
    rw [run_current_bind, run_current_bind]
    split
    · next hk =>
      refine operator_congr fun op => checkTarget_congr ?_
      refine advance_congr (kind_ne hk nofun) fun r hr => ?_
      refine run_bind_congr (deeper_congr fun k hk => ?_) fun _ _ _ => rfl
      exact h.again hk (hq.trans_past hr) (Nat.le_refl _) (Nat.zero_le _)
    · rfl

theorem conditional_congr (h : AgreeAfter read read' ⟨n, conditional, p⟩) :
    (body read n conditional).run p = (body read' n conditional).run p := by
  rw [body, body, run_startPosition_bind, run_startPosition_bind]
  refine run_bind_congr (h.tighter (Nat.le_refl n) (.refl p) (by simp) rfl) fun test q hq => ?_
  have hq := hg _ _ _ _ _ hq
  refine eat_congr nofun (fun r hr => ?_) rfl
  have hr := hq.trans_past hr
  refine run_bind_congr (deeper_congr fun k hk => h.another hk hr (by simp) rfl)
    fun consequent s hs => ?_
  have hs := hr.trans (deeper_goes (hg · assignment) _ _ _ hs)
  refine expect_congr nofun fun t ht => ?_
  refine run_bind_congr (deeper_congr fun k hk => ?_) fun _ _ _ => rfl
  exact h.another hk (hs.trans ht.goes) (by simp) rfl

theorem chain_congr (h : AgreeAfter read read' ⟨n, chain, p⟩) :
    (body read n chain).run p = (body read' n chain).run p := by
  rw [body, body, run_startPosition_bind, run_startPosition_bind]
  refine run_bind_congr (h.tighter (Nat.le_refl n) (.refl p) (by simp) rfl) fun first q hq => ?_
  exact h.tighter (Nat.le_refl n) (hg _ _ _ _ _ hq) (by simp) rfl

theorem climb_congr {start : Position} {least : Nat} {left : Expr}
    (h : AgreeAfter read read' ⟨n, climb start least left, p⟩) :
    (body read n (climb start least left)).run p = (body read' n (climb start least left)).run p := by
  rw [body, body, run_current_bind, run_current_bind]
  simp only [Parser.token_kind]
  split
  · rfl
  · next strength hs =>
    split
    · rfl
    · next hlt =>
      have hlt := Nat.lt_of_not_le hlt
      have hle := chainStrength?_le hs
      refine run_bind_congr rfl fun _ _ hc => ?_
      obtain ⟨-, rfl⟩ := checkPowerBase_eq_ok.1 hc
      refine run_bind_congr rfl fun node _ hc => ?_
      obtain ⟨-, rfl⟩ := binaryNode_eq_ok.1 hc
      refine advance_congr (kind_ne hs nofun) fun q hq => ?_
      rw [run_startPosition_bind, run_startPosition_bind]
      refine run_bind_congr (h.another (Nat.le_refl n) hq (by simp) rfl) fun first r hr => ?_
      have hr := hq.trans (hg _ _ _ _ _ hr)
      refine run_bind_congr ?_ fun right s hs => ?_
      · split
        · refine deeper_congr fun k hk => h.again hk hr ?_ ?_
          · exact Nat.le_sub_one_of_lt hlt
          · exact Nat.le_trans (Nat.le_trans (Nat.sub_le ..) hle) (Nat.le_max_left ..)
        · exact h.again (Nat.le_refl n) hr (Nat.le_of_lt hlt)
            (Nat.le_trans hle (Nat.le_max_left ..))
      · rw [run_infoFrom_bind, run_infoFrom_bind]
        have hs : r.Goes s := by
          split at hs
          · exact deeper_goes (hg · _) _ _ _ hs
          · exact hg _ _ _ _ _ hs
        exact h.again (Nat.le_refl n) (hr.trans hs) (Nat.le_refl _) (Nat.le_max_right ..)

omit hg in
theorem operand_congr (h : AgreeAfter read read' ⟨n, operand, p⟩) :
    (body read n operand).run p = (body read' n operand).run p := by
  rw [body, body, run_current_bind, run_current_bind]
  split
  · next hk =>
    refine deeper_congr fun k hm => prefixed_congr hk fun q hq => ?_
    exact h.again hm hq (Nat.le_refl _) (Nat.zero_le _)
  · exact h.tighter (Nat.le_refl n) (.refl p) (by simp) rfl

omit hg in
theorem postfixed_congr (h : AgreeAfter read read' ⟨n, postfixed, p⟩) :
    (body read n postfixed).run p = (body read' n postfixed).run p := by
  rw [body, body, run_startPosition_bind, run_startPosition_bind]
  exact run_bind_congr (h.tighter (Nat.le_refl n) (.refl p) (by simp) rfl) fun _ _ _ => rfl

theorem subscripts_congr (h : AgreeAfter read read' ⟨n, subscripts, p⟩) :
    (body read n subscripts).run p = (body read' n subscripts).run p := by
  rw [body, body, run_startPosition_bind, run_startPosition_bind, run_get_bind, run_get_bind]
  refine run_bind_congr (h.tighter (Nat.le_refl n) (.refl p) (by simp) rfl) fun base q hq => ?_
  rw [run_looksAt_bind, run_looksAt_bind]
  split
  · rfl
  · exact h.tighter (Nat.le_refl n) (hg _ _ _ _ _ hq) (by simp) rfl

theorem tail_congr {start : Position} {base : Expr}
    (h : AgreeAfter read read' ⟨n, tail start base, p⟩) :
    (body read n (tail start base)).run p = (body read' n (tail start base)).run p := by
  rw [body, body]
  refine eat_congr nofun (fun q hq => ?_) rfl
  refine run_bind_congr (h.another (Nat.le_refl n) hq (by simp) rfl) fun property r hr => ?_
  have hr := hq.trans (hg _ _ _ _ _ hr)
  refine expect_congr nofun fun s hs => ?_
  rw [run_infoFrom_bind, run_infoFrom_bind]
  exact h.again (Nat.le_refl n) (hr.trans hs.goes) (Nat.le_refl _) (Nat.zero_le _)

omit hg in
theorem atom_congr (h : AgreeAfter read read' ⟨n, atom, p⟩) :
    (body read n atom).run p = (body read' n atom).run p := by
  rw [body, body, run_current_bind, run_current_bind]
  simp only [Parser.token_kind]
  split
  · rfl
  · rfl
  · next hk =>
    rw [run_startPosition_bind, run_startPosition_bind]
    refine advance_congr (by simp [hk]) fun q hq => ?_
    exact run_bind_congr (h.another (Nat.le_refl n) hq (by simp) rfl) fun _ _ _ => rfl
  · rfl

/-- A construct comes to the same with readings that agree where it may lead. -/
theorem body_congr {goal : Goal} (h : AgreeAfter read read' ⟨n, goal, p⟩) :
    (body read n goal).run p = (body read' n goal).run p := by
  cases goal with
  | expression => exact expression_congr hg h
  | items => exact items_congr hg h
  | assignment => exact assignment_congr hg h
  | conditional => exact conditional_congr hg h
  | chain => exact chain_congr hg h
  | climb => exact climb_congr hg h
  | operand => exact operand_congr h
  | postfixed => exact postfixed_congr h
  | subscripts => exact subscripts_congr hg h
  | tail => exact tail_congr hg h
  | atom => exact atom_congr h

end Goal

namespace Activation

variable {a b : Activation C}

theorem Asks.leadsTo (h : a.Asks b) : a.LeadsTo b := by
  obtain ⟨read, hg, read', heq, hne⟩ := h
  refine Classical.byContradiction fun hb => hne (Goal.body_congr hg fun c hc => ?_).symm
  exact (heq c fun h => hb (h ▸ hc)).symm

/-- Readings that ask for one another, one after the other, go on. -/
theorem proceeds_of_transGen (h : Relation.TransGen Asks a b) : a.Proceeds b := by
  induction h with
  | single h => exact h.leadsTo.toProceeds
  | tail _ h ih => exact ih.trans h.leadsTo.toProceeds

end Activation

end ArithLang
