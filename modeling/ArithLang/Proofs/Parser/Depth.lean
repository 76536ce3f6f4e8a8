import ArithLang.Proofs.Parser.Budget
import ArithLang.Proofs.Parser.Grouping

/-!
The depth of nesting, counted. A parser that counts how deep it is, and gives up where it is too deep,
reads just as one whose levels of nesting are given to it. Every construct leaves the depth as it was,
and but for giving up the depth changes nothing.
-/

namespace ArithLang

/-- A cursor with a gauge: how deeply nested the parser is, and how deeply it has been. -/
structure Gauge (C : Type) where
  cursor : C
  depth : Nat := 0
  deepest : Nat := 0

/-- The steps of the grammar that read an expression. -/
inductive Construct
  | toEnd
  | sequence
  | nestedAssignment
  | assignment
  | conditional
  | chain
  | nestedClimb : (left : Expr) → (start : Position) → (least : Nat) → Construct
  | climb : (left : Expr) → (start : Position) → (least : Nat) → Construct
  | operand
  | nestedUnary
  | unary
  | postfixed
  | subscripts
  | subscriptTail : (base : Expr) → (start : Position) → Construct
  | atom
  | parenthesized
  | number
  | identifier

variable {C : Type} [TokenCursor C]

namespace Construct

def step (inner : Nested C) : Construct → Step C Expr
  | toEnd => do
    let e ← Grammar.sequence inner
    if ← Step.looksAt .eof then return e else Step.unexpected "end of input"
  | sequence => Grammar.sequence inner
  | nestedAssignment => inner.assignment
  | assignment => Grammar.assignment inner
  | conditional => Grammar.conditional inner
  | chain => Grammar.chain inner
  | nestedClimb left start least => inner.climb left start least
  | climb left start least => do Grammar.climb inner start least (← Step.remaining) left
  | operand => Grammar.operand inner
  | nestedUnary => inner.unary
  | unary => Grammar.unary inner
  | postfixed => Grammar.postfixed inner
  | subscripts => Grammar.subscripts inner
  | subscriptTail base start => do Grammar.subscriptTail inner start (← Step.remaining) base
  | atom => Grammar.atom inner
  | parenthesized => Grammar.parenthesized inner
  | number => Grammar.numberLiteral
  | identifier => Grammar.identifier

/-- The kind of the token at which a construct is begun. -/
def BeginsAt : Construct → Kind → Prop
  | nestedUnary, k | unary, k => k.startsUnary = true
  | parenthesized, k => k = .parenL
  | number, k => k = .num
  | identifier, k => k = .name
  | _, _ => True

/-- What a call reads. -/
def ofCall : Call → Construct
  | .expression => sequence
  | .toEnd => toEnd

theorem step_ofCall (c : Call) :
    (ofCall c).step (Nested.withLevels maxNesting) = (c.step : Step C Expr) := by
  cases c <;> rfl

theorem beginsAt_ofCall (c : Call) (k : Kind) : (ofCall c).BeginsAt k := by
  cases c <;> trivial

end Construct

namespace Gauge

instance : TokenCursor (Gauge C) where
  current g := TokenCursor.current g.cursor
  lastStop g := TokenCursor.lastStop g.cursor
  advance g :=
    let (result, cursor) := TokenCursor.advance g.cursor
    (result, { g with cursor })
  input g := TokenCursor.input g.cursor
  remaining g := TokenCursor.remaining g.cursor

def enter (p : Parser (Gauge C)) : Parser (Gauge C) :=
  let g := p.cursor
  { p with cursor := { g with depth := g.depth + 1, deepest := max g.deepest (g.depth + 1) } }

def leave (p : Parser (Gauge C)) : Parser (Gauge C) :=
  let g := p.cursor
  { p with cursor := { g with depth := g.depth - 1 } }

/-- Does a step one level deeper, and comes back whatever the step comes to. -/
def nested {α : Type} (step : Step (Gauge C) α) : Step (Gauge C) α := do
  if maxNesting ≤ (← get).cursor.depth then Step.failHere .nestedTooDeeply
  else
    modify enter
    try step finally modify leave

/-- The steps that count their depth, for so many levels. What stands beyond is out of reach if the
levels go beyond the limit. -/
def steps (beyond : Nested (Gauge C)) : Nat → Nested (Gauge C)
  | 0 => beyond
  | levels + 1 =>
    let inner := steps beyond levels
    { assignment := nested (Grammar.assignment inner)
      unary := nested (Grammar.unary inner)
      climb := fun left start least => nested do
        Grammar.climb inner start least (← Step.remaining) left }

/-- The parser is so deep, and has never been deeper than the limit. -/
structure At (depth : Nat) (p : Parser (Gauge C)) : Prop where
  depth_eq : p.cursor.depth = depth
  deepest_le : p.cursor.deepest ≤ maxNesting

def call (beyond : Nested (Gauge C)) (p : Parser (Gauge C)) (c : Call) :
    Except SyntaxError Expr × Parser (Gauge C) :=
  p.run ((Construct.ofCall c).step (steps beyond (maxNesting + 1)))

/-- The parser after some calls. -/
def after (beyond : Nested (Gauge C)) (p : Parser (Gauge C)) : List Call → Parser (Gauge C)
  | [] => p
  | c :: calls => after beyond (call beyond p c).2 calls

/-- One level back, whatever came of a step. -/
def back {α : Type} : EStateM.Result SyntaxError (Parser (Gauge C)) α →
    EStateM.Result SyntaxError (Parser (Gauge C)) α
  | .ok a p => .ok a (leave p)
  | .error e p => .error e (leave p)

variable {α : Type} {p : Parser (Gauge C)}

theorem run_nested (h : p.cursor.depth < maxNesting) (x : Step (Gauge C) α) :
    (nested x).run p = back (x.run (enter p)) := by
  rw [nested, Step.run_get_bind, if_neg (Nat.not_le_of_lt h)]
  change (tryFinally x (modify leave) : Step (Gauge C) α).run (enter p) = _
  unfold tryFinally
  simp only [EStateM.run, tryFinally', Functor.map, EStateM.map]
  cases x (enter p) <;> rfl

theorem run_nested_of_le (h : maxNesting ≤ p.cursor.depth) (x : Step (Gauge C) α) :
    (nested x).run p = (Step.failHere .nestedTooDeeply : Step (Gauge C) α).run p := by
  rw [nested, Step.run_get_bind, if_pos h]

end Gauge

/-- The parser without its gauge. -/
def Parser.plain (p : Parser (Gauge C)) : Parser C :=
  { p with cursor := p.cursor.cursor }

namespace Lockstep

/-- A parser that counts its depth, which is `depth` now, beside one that does not. -/
def gauged (depth : Nat) : Lockstep (Gauge C) C where
  layout := .same
  cursor g c := g.cursor = c ∧ g.depth = depth ∧ g.deepest ≤ maxNesting
  stuck g c := g.cursor = c ∧ g.depth = depth ∧ g.deepest ≤ maxNesting
  lexical e e' := e = e'
  context x y := y = x
  fuel _ _ n n' := n = n'
  excused _ := False
  kind_eq h := h.1 ▸ rfl
  value_eq h := h.1 ▸ rfl
  start h := h.1 ▸ rfl
  stop h := h.1 ▸ rfl
  raw {p p'} h _ := by
    change p.raw = p'.raw
    rw [Parser.raw, Parser.raw, Parser.token, Parser.token, ← h.1]
    rfl
  offsets_eq := Layout.Offsets.eq_iff
  advance_ok {g d c} h _ ha := by
    obtain ⟨rfl, hd, hm⟩ := h
    obtain ⟨hr, rfl⟩ := Prod.mk.inj ha
    exact ⟨_, Prod.ext hr rfl, ⟨rfl, hd, hm⟩, fun n n' => ⟨id, Nat.succ.inj⟩⟩
  advance_error {g d c e} h _ ha := by
    obtain ⟨rfl, hd, hm⟩ := h
    obtain ⟨hr, rfl⟩ := Prod.mk.inj ha
    exact ⟨e, _, Prod.ext hr rfl, rfl, rfl, hd, hm⟩
  fuel_remaining h := h.1 ▸ rfl
  fuel_zero _ hf _ := by rw [hf]
  inGenerator_eq h := by rw [h]
  strict_eq h := .inl (by rw [h])
  postfix_eq {p p'} h hx _ := by
    have hc : p'.cursor = p.plain.cursor := h.1.symm
    have hx : p'.context = p.plain.context := hx
    rw [Parser.mayEndStatement, Parser.mayEndStatement, Parser.kind, Parser.kind, Parser.token,
      Parser.token, hc, hx]
    rfl

variable {depth : Nat} {p : Parser (Gauge C)} {p' : Parser C}

theorem gauged_enter (hd : depth < maxNesting)
    (h : (gauged depth).Parsers (gauged depth).cursor p p') :
    (gauged (depth + 1)).Parsers (gauged (depth + 1)).cursor (Gauge.enter p) p' := by
  obtain ⟨⟨hc, rfl, hm⟩, hcontext, harrow⟩ := h
  exact ⟨⟨hc, rfl, Nat.max_le.2 ⟨hm, hd⟩⟩, hcontext, harrow⟩

theorem gauged_leave (h : (gauged (depth + 1)).Parsers (gauged (depth + 1)).cursor p p') :
    (gauged depth).Parsers (gauged depth).cursor (Gauge.leave p) p' := by
  obtain ⟨⟨hc, hd, hm⟩, hcontext, harrow⟩ := h
  exact ⟨⟨hc, congrArg (· - 1) hd, hm⟩, hcontext, harrow⟩

/-- A step one level deeper brings the depth back, whatever it comes to. -/
theorem gauged_nested {α α' : Type} {A : α → α' → Prop} {x : Step (Gauge C) α} {x' : Step C α'}
    (hd : depth < maxNesting) (h : (gauged depth).Parsers (gauged depth).cursor p p')
    (hx : ∀ q, (gauged (depth + 1)).Parsers (gauged (depth + 1)).cursor q p' →
      (gauged (depth + 1)).Ends A q p' (x.run q) (x'.run p')) :
    (gauged depth).Ends A p p' ((Gauge.nested x).run p) (x'.run p') := by
  have ends := hx _ (gauged_enter hd h)
  rw [Gauge.run_nested (h.cursor.2.1 ▸ hd)]
  generalize x.run (Gauge.enter p) = r at ends ⊢
  generalize x'.run p' = r' at ends ⊢
  cases ends with
  | ok ha ho => exact .ok ha ⟨gauged_leave ho.parsers, fun _ _ => id⟩
  | fault hf ho => exact .fault hf ⟨gauged_leave ho.parsers, fun _ _ => id⟩
  | lexical he hs => exact .lexical he (gauged_leave hs)
  | excused he => exact he.elim

/-- At the limit there is no level left. -/
theorem gauged_limit {α α' : Type} {A : α → α' → Prop} (x : Step (Gauge C) α)
    (h : (gauged maxNesting).Parsers (gauged maxNesting).cursor p p') :
    (gauged maxNesting).Ends A p p' ((Gauge.nested x).run p)
      ((Step.failHere .nestedTooDeeply : Step C α').run p') := by
  rw [Gauge.run_nested_of_le (Nat.le_of_eq h.cursor.2.1.symm)]
  exact h.failHere _

/-- Steps that count their depth and steps with as many levels left keep in lockstep. -/
theorem inner_gauged {beyond : Nested (Gauge C)} {n : Nat} (hd : depth ≤ maxNesting)
    (hn : maxNesting < depth + n) :
    Inner (gauged depth) (Gauge.steps beyond n) (Nested.withLevels (maxNesting - depth)) := by
  induction n generalizing depth with
  | zero => exact absurd hd (Nat.not_le_of_lt hn)
  | succ n ih =>
    -- at the limit both give up; below it both go one level deeper
    obtain rfl | hlt := Nat.eq_or_lt_of_le hd
    · rw [Nat.sub_self]
      exact ⟨gauged_limit _, fun h _ => gauged_limit _ h, fun h _ _ => gauged_limit _ h⟩
    · have hi := ih hlt (by omega)
      rw [show maxNesting - depth = maxNesting - (depth + 1) + 1 by omega, Nested.withLevels]
      refine ⟨fun h => ?_, fun h hk => ?_, fun h he hs => ?_⟩
      · exact gauged_nested hlt h fun q hq => assignment hq hi
      · refine gauged_nested hlt h fun q hq => unary hq hi ?_
        rwa [hq.kind_eq, ← h.kind_eq]
      · refine gauged_nested hlt h fun q hq => ?_
        rw [Step.run_remaining_bind, Step.run_remaining_bind]
        exact climb hq hi ((gauged _).fuel_remaining hq.cursor) hs he

/-- Every construct keeps parsers in lockstep. -/
theorem construct {C' : Type} [TokenCursor C'] {L : Lockstep C C'} {p : Parser C} {p' : Parser C'}
    {inner : Nested C} {inner' : Nested C'} (hl : L.layout = .same) (h : L.Parsers L.cursor p p')
    (hi : Inner L inner inner') {c : Construct} (hc : c.BeginsAt p.kind) :
    L.Ends (Expr.Alike L.layout) p p' ((c.step inner).run p) ((c.step inner').run p') := by
  have alike (e : Expr) : e.Alike L.layout e := hl ▸ e.alike_same
  have start (position : Position) : L.layout.start position position := by rw [hl]; rfl
  have fuel := L.fuel_remaining h.cursor
  cases c with
  | toEnd =>
    refine (sequence h hi).bind fun e e' q q' he hq => ?_
    rw [Step.run_looksAt_bind, Step.run_looksAt_bind, ← hq.parsers.kind_eq]
    split
    · exact hq.parsers.pure he
    · exact hq.parsers.unexpected _
  | sequence => exact sequence h hi
  | nestedAssignment => exact hi.assignment h
  | assignment => exact assignment h hi
  | conditional => exact conditional h hi
  | chain => exact chain h hi
  | nestedClimb left position => exact hi.climb h (alike left) (start position)
  | climb left position => exact climb h hi fuel (start position) (alike left)
  | operand => exact operand h hi
  | nestedUnary => exact hi.unary h hc
  | unary => exact unary h hi hc
  | postfixed => exact postfixed h hi
  | subscripts => exact subscripts h hi
  | subscriptTail base position => exact subscriptTail h hi fuel (start position) (alike base)
  | atom => exact atom h hi
  | parenthesized => exact parenthesized h hi hc
  | number => exact numberLiteral h hc
  | identifier => exact identifier h hc

theorem plain_eq_of_gauged (h : (gauged depth).Parsers (gauged depth).cursor p p') :
    p.plain = p' := by
  have hc : p.cursor.cursor = p'.cursor := h.cursor.1
  have hx : p.context = p'.context := h.context.symm
  have ha : p.arrowStart = p'.arrowStart :=
    eq_of_optionRel h.arrowStart fun _ _ => Layout.Offsets.eq
  cases p'
  simp_all [Parser.plain]

/-- Steps in lockstep answer the same, and the depth is as it was. -/
theorem run_of_gauged {step : Step (Gauge C) Expr} {step' : Step C Expr}
    (ends : (gauged depth).Ends (Expr.Alike .same) p p' (step.run p) (step'.run p')) :
    (p.run step).1 = (p'.run step').1 ∧
      (gauged depth).Parsers (gauged depth).cursor (p.run step).2 (p'.run step').2 := by
  rw [Parser.run, Parser.run]
  generalize step.run p = r at ends
  generalize step'.run p' = r' at ends
  cases ends with
  | ok he ho => exact ⟨congrArg Except.ok he.eq, ho.parsers⟩
  | fault hf ho =>
    cases hf.eq
    exact ⟨rfl, ho.parsers⟩
  | lexical he hs =>
    cases he
    exact ⟨rfl, hs⟩
  | excused he => exact he.elim

/-- A construct with fewer levels of nesting left gives up, or does what it does with more. -/
theorem run_shallower {m n : Nat} (h : m ≤ n) (p : Parser C) {c : Construct}
    (hc : c.BeginsAt p.kind) :
    (∃ offset, (p.run (c.step (Nested.withLevels m))).1 =
      .error (.fault .nestedTooDeeply offset)) ∨
      p.run (c.step (Nested.withLevels m)) = p.run (c.step (Nested.withLevels n)) := by
  have hp : (shallower p.context).Parsers (shallower p.context).cursor p p :=
    ⟨⟨trivial, rfl⟩, ⟨rfl, rfl⟩, Layout.optionRel_same _⟩
  have ends := construct rfl hp (inner_withLevels (.inr ⟨h, fun offset => ⟨offset, rfl⟩⟩)) hc
  rw [Parser.run, Parser.run]
  generalize (c.step (Nested.withLevels m)).run p = r at ends
  generalize (c.step (Nested.withLevels n)).run p = r' at ends
  cases ends with
  | ok he ho => exact .inr (by rw [he.eq, eq_of_shallower ho.parsers])
  | fault hf ho =>
    cases hf.eq
    exact .inr (by rw [eq_of_shallower ho.parsers])
  | lexical he hs =>
    cases he
    exact .inr (by rw [eq_of_shallower ⟨hs.cursor, hs.context, hs.arrowStart⟩])
  | excused he =>
    obtain ⟨offset, rfl⟩ := he
    exact .inl ⟨offset, rfl⟩

/-- A construct that counts its depth, beside the same with as many levels left. -/
theorem run_construct (beyond : Nested (Gauge C)) {n : Nat} {c : Construct} (hc : c.BeginsAt p.kind)
    (h : Gauge.At depth p) (hd : depth ≤ maxNesting) (hn : maxNesting < depth + n) :
    let r := p.run (c.step (Gauge.steps beyond n))
    let r' := p.plain.run (c.step (Nested.withLevels (maxNesting - depth)))
    r.1 = r'.1 ∧ r.2.plain = r'.2 ∧ Gauge.At depth r.2 := by
  have hp : (gauged depth).Parsers (gauged depth).cursor p p.plain :=
    ⟨⟨rfl, h.depth_eq, h.deepest_le⟩, rfl, Layout.optionRel_same _⟩
  obtain ⟨hanswer, hparsers⟩ := run_of_gauged (construct rfl hp (inner_gauged hd hn) hc)
  exact ⟨hanswer, plain_eq_of_gauged hparsers, hparsers.cursor.2.1, hparsers.cursor.2.2⟩

theorem call_gauged (beyond : Nested (Gauge C)) (h : Gauge.At 0 p) (c : Call) :
    (Gauge.call beyond p c).1 = (p.plain.call c).1 ∧
      (Gauge.call beyond p c).2.plain = (p.plain.call c).2 ∧ Gauge.At 0 (Gauge.call beyond p c).2 := by
  have hrun := run_construct beyond (Construct.beginsAt_ofCall c _) h (Nat.zero_le _)
    (show maxNesting < 0 + (maxNesting + 1) by omega)
  rw [Nat.sub_zero, Construct.step_ofCall] at hrun
  exact hrun

theorem after_gauged (beyond : Nested (Gauge C)) (h : Gauge.At 0 p) (calls : List Call) :
    (Gauge.after beyond p calls).plain = p.plain.after calls ∧
      Gauge.At 0 (Gauge.after beyond p calls) := by
  induction calls generalizing p with
  | nil => exact ⟨rfl, h⟩
  | cons c calls ih =>
    obtain ⟨-, hplain, hat⟩ := call_gauged beyond h c
    rw [Parser.after, ← hplain]
    exact ih hat

/-- A construct that does not give up when it is deep does the same when it is less deep. -/
theorem run_less_deep (beyond : Nested (Gauge C)) {depth' n n' : Nat} {q : Parser (Gauge C)}
    {c : Construct} (hc : c.BeginsAt p.kind) (h : Gauge.At depth p) (h' : Gauge.At depth' q)
    (hplain : q.plain = p.plain) (hd : depth ≤ maxNesting) (hle : depth' ≤ depth)
    (hn : maxNesting < depth + n) (hn' : maxNesting < depth' + n')
    (hr : ∀ offset, (p.run (c.step (Gauge.steps beyond n))).1 ≠
      .error (.fault .nestedTooDeeply offset)) :
    (q.run (c.step (Gauge.steps beyond n'))).1 = (p.run (c.step (Gauge.steps beyond n))).1 ∧
      (q.run (c.step (Gauge.steps beyond n'))).2.plain =
        (p.run (c.step (Gauge.steps beyond n))).2.plain := by
  have hc' : c.BeginsAt q.kind := by
    change c.BeginsAt q.plain.kind
    rw [hplain]
    exact hc
  obtain ⟨hanswer, hparser, -⟩ := run_construct beyond hc h hd hn
  obtain ⟨hanswer', hparser', -⟩ := run_construct beyond hc' h' (Nat.le_trans hle hd) hn'
  rw [hanswer] at hr ⊢
  rw [hanswer', hparser, hparser', hplain]
  obtain ⟨offset, hdeep⟩ | heq :=
    run_shallower (Nat.sub_le_sub_left hle maxNesting) p.plain (show c.BeginsAt p.plain.kind from hc)
  · exact absurd hdeep (hr offset)
  · rw [heq]
    exact ⟨rfl, rfl⟩

end Lockstep

namespace Parser

/-- A parser that counts its depth answers every call as one whose levels of nesting are given to it. Its
depth is zero between calls, is brought back by every construct, whatever comes of it, and never beyond
the limit. A construct that does not give up does the same wherever it is less deep; and a list that holds
fewer tokens that can begin a level than there are levels is never nested too deeply. -/
theorem depth_balanced (cursor : C) (context : Context) (beyond : Nested (Gauge C)) :
    (∀ calls : List Call,
      let p := Gauge.after beyond (ofCursor ⟨cursor, 0, 0⟩ context) calls
      Gauge.At 0 p ∧ p.plain = (ofCursor cursor context).after calls ∧
        ∀ c, (Gauge.call beyond p c).1 = (p.plain.call c).1) ∧
    (∀ (c : Construct) (p : Parser (Gauge C)) (depth levels : Nat), c.BeginsAt p.kind →
      Gauge.At depth p → depth ≤ maxNesting → maxNesting < depth + levels →
        let r := p.run (c.step (Gauge.steps beyond levels))
        Gauge.At depth r.2 ∧
          ∀ (q : Parser (Gauge C)) (depth' levels' : Nat), q.plain = p.plain → Gauge.At depth' q →
            depth' ≤ depth → maxNesting < depth' + levels' →
            (∀ offset, r.1 ≠ .error (.fault .nestedTooDeeply offset)) →
              let r' := q.run (c.step (Gauge.steps beyond levels'))
              r'.1 = r.1 ∧ r'.2.plain = r.2.plain) ∧
    ∀ (input : List Char) (ts : List Token), ts.getLast?.map Token.kind = some .eof →
      ts.countP (·.kind.nests) < maxNesting → ∀ (calls : List Call) (c : Call) (offset : Nat),
        (((ofCursor (TokenList.ofTokens input ts) context).after calls).call c).1 ≠
          .error (.fault .nestedTooDeeply offset) := by
  refine ⟨fun calls => ?_, fun c p depth levels hc h hd hn => ?_, fun input ts hlast hcount => ?_⟩
  · obtain ⟨hplain, hat⟩ := Lockstep.after_gauged (p := ofCursor ⟨cursor, 0, 0⟩ context) beyond
      ⟨rfl, Nat.zero_le _⟩ calls
    exact ⟨hat, hplain, fun c => (Lockstep.call_gauged beyond hat c).1⟩
  · obtain ⟨-, -, hat⟩ := Lockstep.run_construct beyond hc h hd hn
    exact ⟨hat, fun q depth' levels' hplain h' hle hn' hr =>
      Lockstep.run_less_deep beyond hc h h' hplain hd hle hn hn' hr⟩
  · exact call_ne_nestedTooDeeply input hlast hcount context

/-- The tokens of a number in so many pairs of parentheses. -/
def parenthesesTokens (pairs : Nat) : List Token :=
  TokenList.spaced 1 (List.replicate pairs (.parenL, .none) ++ [(.num, .number (.int 1))] ++
    List.replicate pairs (.parenR, .none) ++ [(.eof, .none)])

/-- One pair of parentheses less than there are levels; one more; and one pair far down and at the top. -/
theorem depth_balanced_parentheses :
    let list := fun pairs => TokenList.ofTokens [] (parenthesesTokens pairs)
    let beyond : Nested (Gauge TokenList) := Nested.withLevels 0
    let deep := fun depth => ofCursor (Gauge.mk (list 1) depth depth) {}
    let run := fun depth => (deep depth).run (Construct.parenthesized.step (Gauge.steps beyond 65))
    (∀ offset, ((ofCursor (list 63) {}).call .toEnd).1 ≠ .error (.fault .nestedTooDeeply offset)) ∧
      ((ofCursor (list 64) {}).call .toEnd).1.map (fun _ => ()) =
        .error (.fault .nestedTooDeeply 64) ∧
      (Gauge.after beyond (ofCursor ⟨list 64, 0, 0⟩ {}) [.toEnd]).cursor.depth = 0 ∧
      (run 63).2.cursor.depth = 63 ∧ (run 63).2.cursor.deepest = 64 ∧
      (run 0).1 = (run 63).1 ∧ (run 63).1.isOk = true := by
  intro list beyond deep run
  have hok : (run 63).1.isOk = true := by decide +kernel
  obtain ⟨hcalls, hconstructs, hbudget⟩ := depth_balanced (list 64) {} beyond
  obtain ⟨hat, hsame⟩ := hconstructs .parenthesized (deep 63) 63 65 rfl ⟨rfl, by decide⟩ (by decide)
    (by decide)
  obtain ⟨hanswer, -⟩ := hsame (deep 0) 0 65 rfl ⟨rfl, by decide⟩ (by decide) (by decide)
    fun offset h => by
      change (run 63).1 = _ at h
      rw [h] at hok
      cases hok
  have hshallow := hbudget [] (parenthesesTokens 63) (by decide +kernel) (by decide +kernel) [] .toEnd
  have hdeep : ((ofCursor (list 64) {}).call .toEnd).1.map (fun _ => ()) =
      .error (.fault .nestedTooDeeply 64) := by decide +kernel
  have hdeepest : (run 63).2.cursor.deepest = 64 := by decide +kernel
  have hzero := (hcalls [.toEnd]).1.depth_eq
  have hback := hat.depth_eq
  exact ⟨hshallow, hdeep, hzero, hback, hdeepest, hanswer, hok⟩

end Parser

end ArithLang
