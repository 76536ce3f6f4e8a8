import ArithLang.Proofs.Parser.Correctness

/-!
What strictness changes in a reading. A strict parser goes the same way as another, step by step, up to
the first `delete` of a name; there it stops. And such a node is part of every tree that would have
come of it, for no rule drops what has been read.
-/

namespace ArithLang

open LawfulCursor (Valid)
open TokenCursor (ahead)
open ArithLang.Parser (kind_ne)

namespace Expr

/-- A node of the tree deletes a name, in parentheses or not, and starts at the offset. -/
inductive DeletesNameAt (offset : Nat) : Expr → Prop
  | here : argument.isIdentifier = true → i.span.start.offset = offset →
      DeletesNameAt offset (.unary .delete isPrefix argument i)
  | inside : child ∈ e.children → DeletesNameAt offset child → DeletesNameAt offset e

variable {e : Expr} {offset : Nat}

theorem DeletesNameAt.not_grammatical (h : e.DeletesNameAt offset) : ¬ e.Grammatical true := by
  induction h with
  | here ha =>
    intro hg
    obtain ⟨-, -, hd⟩ := (every_iff.1 hg).1
    rw [ha] at hd
    cases hd
  | inside hc _ ih =>
    intro hg
    exact ih ((every_iff.1 hg).2 _ hc)

theorem DeletesNameAt.parenthesize (h : e.DeletesNameAt offset) (o : Nat) :
    (e.parenthesize o).DeletesNameAt offset := by
  cases h with
  | here ha ho => exact .here ha ho
  | inside hc h =>
    refine .inside ?_ h
    rwa [Expr.parenthesize, withExtra, children_withInfo]

end Expr

variable {C : Type} [TokenCursor C]

namespace Parser

/-- The parser, strict from here on. -/
def strictly (p : Parser C) : Parser C := { p with context := { p.context with strict := true } }

variable {p q : Parser C}

@[simp] theorem strictly_kind (p : Parser C) : p.strictly.kind = p.kind := rfl

@[simp] theorem strictly_token (p : Parser C) : p.strictly.token = p.token := rfl

omit [TokenCursor C] in
@[simp] theorem strictly_arrowStart (p : Parser C) : p.strictly.arrowStart = p.arrowStart := rfl

theorem strictly_atPostfix (p : Parser C) : p.strictly.atPostfix = p.atPostfix := rfl

theorem marked_strictly (p : Parser C) : p.strictly.marked = p.marked.strictly := by
  unfold marked
  rw [strictly_kind]
  split <;> rfl

theorem Moves.strictly (h : p.Moves q) : p.strictly.Moves q.strictly where
  advance_eq := h.advance_eq
  context_eq := by rw [Parser.strictly, Parser.strictly, h.context_eq]
  arrowStart_eq := h.arrowStart_eq

theorem OperatorAt.strictly {least strength : Nat} {left : Expr} {node : Expr → Expr → Info → Expr}
    (h : p.OperatorAt least strength left node) :
    p.strictly.OperatorAt least strength left node :=
  ⟨h.strength_eq, h.least_lt, h.base, h.node_eq⟩

/-- A strict parser ends as another did, or at the `delete` of a name, where there is one. -/
inductive StrictlyEnds {α : Type} (deletes : Nat → Prop) (a : α) (q : Parser C) :
    EStateM.Result SyntaxError (Parser C) α → Prop
  | same : StrictlyEnds deletes a q (.ok a q.strictly)
  | refused : deletes offset → StrictlyEnds deletes a q (.error (.fault .deleteOfName offset) r)

omit [TokenCursor C] in
theorem StrictlyEnds.of_ok {α : Type} {deletes : Nat → Prop} {a : α} {q : Parser C}
    {x : EStateM.Result SyntaxError (Parser C) α} (h : x = .ok a q.strictly) :
    StrictlyEnds deletes a q x := by
  rw [h]
  exact .same

omit [TokenCursor C] in
theorem StrictlyEnds.bind {α β : Type} {deletes deletes' : Nat → Prop} {x : Step C α}
    {f : α → Step C β} {p q r : Parser C} {a : α} {b : β}
    (hx : StrictlyEnds deletes a q (x.run p)) (hd : ∀ offset, deletes offset → deletes' offset)
    (hf : StrictlyEnds deletes' b r ((f a).run q.strictly)) :
    StrictlyEnds deletes' b r ((x >>= f).run p) := by
  rw [EStateM.run_bind]
  generalize x.run p = u at hx
  cases hx with
  | same => exact hf
  | refused h => exact .refused (hd _ h)

end Parser

open ArithLang.Parser (strictly_kind strictly_token strictly_atPostfix StrictlyEnds)

namespace Goal

/-- The trees that a reading goes on from. -/
def parts : Goal → List Expr
  | items _ before => before
  | climb _ _ left => [left]
  | tail _ base => [base]
  | _ => []

/-- The step that reads by a goal, with so many levels of nesting left. -/
def step (n : Nat) (goal : Goal) (fuel : Nat) : Step C Expr :=
  let inner := Nested.withLevels n
  match goal with
  | expression => Grammar.sequence inner
  | items start before => do
    let others ← Grammar.listTail inner fuel
    return .sequence (before ++ others) (← Step.infoFrom start {})
  | assignment => Grammar.assignment inner
  | conditional => Grammar.conditional inner
  | chain => Grammar.chain inner
  | climb start least left => Grammar.climb inner start least fuel left
  | operand => Grammar.operand inner
  | postfixed => Grammar.postfixed inner
  | subscripts => Grammar.subscripts inner
  | tail start base => Grammar.subscriptTail inner start fuel base
  | atom => Grammar.atom inner

end Goal

theorem Parser.node?_children {p : Parser C} {node : Expr → Expr → Info → Expr}
    (h : p.node? = some node) (l r : Expr) (i : Info) : (node l r i).children = [l, r] := by
  obtain ⟨op, -, rfl⟩ | ⟨op, -, rfl⟩ := Parser.node?_eq_some h <;> rfl

/-- A reading keeps the trees it goes on from. -/
theorem Parses.keeps {n offset : Nat} {goal : Goal} {p q : Parser C} {e part : Expr}
    (h : Parses n goal p e q) (hp : part ∈ goal.parts) (hd : part.DeletesNameAt offset) :
    e.DeletesNameAt offset := by
  induction h generalizing part with
  | tailEnd | climbEnd =>
    cases List.mem_singleton.1 hp
    exact hd
  | tailMore _ _ _ _ _ _ _ ih =>
    cases List.mem_singleton.1 hp
    exact ih List.mem_cons_self (.inside List.mem_cons_self hd)
  | climbLeft hop _ _ _ _ _ _ _ ih | climbRight hop _ _ _ _ _ _ _ ih =>
    cases List.mem_singleton.1 hp
    refine ih List.mem_cons_self (.inside ?_ hd)
    rw [Parser.node?_children hop.node_eq]
    exact List.mem_cons_self
  | itemsEnd => exact .inside hp hd
  | itemsMore _ _ _ _ _ ih => exact ih (List.mem_append_left _ hp) hd
  | _ => cases hp

variable [LawfulCursor C] {p p₁ p₂ p₃ p₄ q : Parser C}

open Step

/-- A reading that a strict parser follows, as far as it may. -/
def Goal.ReadsStrictly (n : Nat) (goal : Goal) (p : Parser C) (e : Expr) (q : Parser C) : Prop :=
  Valid p.cursor → ∀ fuel, ahead p.cursor ≤ fuel →
    StrictlyEnds e.DeletesNameAt e q ((goal.step n fuel).run p.strictly)

namespace Goal.ReadsStrictly

variable {n fuel least strength : Nat} {start : Position} {e base first left right : Expr}
  {node : Expr → Expr → Info → Expr}

theorem ends {goal : Goal} (h : ReadsStrictly n goal p e q) (hv : Valid p.cursor) :
    StrictlyEnds e.DeletesNameAt e q ((goal.step n (ahead p.cursor)).run p.strictly) :=
  h hv _ (Nat.le_refl _)

theorem number {v : Number} (hk : p.kind = .num) (hv : p.token.value = .number v)
    (hm : p.Moves q) : ReadsStrictly n .atom p
      (.number v (q.infoFrom p.token.start { raw := some p.raw, rawValue := some v })) q := by
  intro hp _ _
  have h : Parses n .atom p.strictly _ q.strictly := .number hk hv hm.strictly
  exact .of_ok ((Grammar.atom_iff (p := p.strictly) (Nested.follows_withLevels n) hp).2 h)

theorem identifier (hk : p.kind = .name) (hm : p.Moves q) : ReadsStrictly n .atom p
    (.identifier (p.token.value.text?.getD "") (q.infoFrom p.token.start {})) q := by
  intro hp _ _
  have h : Parses n .atom p.strictly _ q.strictly := .identifier hk hm.strictly
  exact .of_ok ((Grammar.atom_iff (p := p.strictly) (Nested.follows_withLevels n) hp).2 h)

theorem parenthesized (hk : p.kind = .parenL) (hm : p.Moves p₁)
    (ih : ReadsStrictly n .expression p₁ e p₂) (hk' : p₂.kind = .parenR) (hm' : p₂.Moves q) :
    ReadsStrictly n .atom p (e.parenthesize p.token.start.offset) q := by
  intro hv _ _
  rw [step, Grammar.atom, run_current_bind, strictly_token, Parser.token_kind, hk]
  change StrictlyEnds _ _ _ ((Grammar.parenthesized _).run _)
  rw [Grammar.parenthesized, run_startPosition_bind, run_bind_of_ok (run_advance_of hm.strictly)]
  refine (ih.ends (hm.valid hv)).bind (fun _ h => h.parenthesize _) ?_
  rw [run_bind_of_ok (run_expect_of (p := p₂.strictly) hk' hm'.strictly)]
  exact .same

theorem tailEnd (hk : p.kind ≠ .bracketL) : ReadsStrictly n (.tail start base) p base p := by
  intro hp fuel hf
  have h : Parses n (.tail start base) p.strictly base p.strictly := .tailEnd hk
  exact .of_ok ((Grammar.subscriptTail_iff (p := p.strictly) (Nested.follows_withLevels n) hp hf).2 h)

theorem tailMore {property : Expr} (hk : p.kind = .bracketL) (hm : p.Moves p₁)
    (h : Parses n .expression p₁ property p₂) (ih : ReadsStrictly n .expression p₁ property p₂)
    (hk' : p₂.kind = .bracketR) (hm' : p₂.Moves p₃)
    (h' : Parses n (.tail start (.member base property true (p₃.infoFrom start {}))) p₃ e q)
    (ih' : ReadsStrictly n (.tail start (.member base property true (p₃.infoFrom start {}))) p₃ e q) :
    ReadsStrictly n (.tail start base) p e q := by
  intro hv fuel hf
  have hv₁ := hm.valid hv
  have hv₂ := h.valid hv₁
  have := hm.ahead_lt hv (kind_ne (f := id) hk nofun)
  have := h.ahead_le hv₁
  have := hm'.ahead_lt hv₂ (kind_ne (f := id) hk' nofun)
  cases fuel with
  | zero => omega
  | succ fuel =>
    rw [step, Grammar.subscriptTail, ← hk, ← strictly_kind, run_bind_of_ok (run_eat_of hm.strictly),
      if_pos rfl]
    refine (ih.ends hv₁).bind (fun _ hd => h'.keeps List.mem_cons_self (.inside ?_ hd)) ?_
    · exact List.mem_cons_of_mem _ List.mem_cons_self
    · rw [run_bind_of_ok (run_expect_of (p := p₂.strictly) hk' hm'.strictly), run_infoFrom_bind]
      exact ih' (hm'.valid hv₂) fuel (by omega)

theorem subscripts (h : Parses n .atom p base p₁) (ih : ReadsStrictly n .atom p base p₁)
    (ha : ¬ (p.arrowStart = some p.token.start.offset ∧ p₁.kind = .arrow))
    (h' : Parses n (.tail p.token.start base) p₁ e q)
    (ih' : ReadsStrictly n (.tail p.token.start base) p₁ e q) : ReadsStrictly n .subscripts p e q := by
  intro hv _ _
  rw [step, Grammar.subscripts, run_startPosition_bind, run_get_bind]
  refine (ih.ends hv).bind (fun _ => h'.keeps List.mem_cons_self) ?_
  rw [run_looksAt_bind, if_neg (by simpa using ha), run_remaining_bind]
  exact ih' (h.valid hv) _ (TokenCursor.ahead_le _)

theorem plain (ih : ReadsStrictly n .subscripts p e q) (ha : q.atPostfix = false) :
    ReadsStrictly n .postfixed p e q := by
  intro hv _ _
  rw [step, Grammar.postfixed, run_startPosition_bind]
  refine (ih.ends hv).bind (fun _ => id) ?_
  rw [run_looksAtPostfix_bind, strictly_atPostfix, if_neg (ne_true_of_eq_false ha)]
  exact .same

theorem postfixUpdate {op : UpdateOp} (ih : ReadsStrictly n .subscripts p base p₁)
    (ha : p₁.atPostfix = true) (ht : base.isAssignable = true)
    (hop : p₁.operator? UpdateOp.ofText? = some op) (hm : p₁.Moves q) (ha' : q.atPostfix = false) :
    ReadsStrictly n .postfixed p (.update op false base (q.infoFrom p.token.start {})) q := by
  intro hv _ _
  rw [step, Grammar.postfixed, run_startPosition_bind]
  refine (ih.ends hv).bind (fun _ => .inside List.mem_cons_self) ?_
  rw [run_looksAtPostfix_bind, strictly_atPostfix, if_pos ha, run_bind_of_ok (run_checkTarget_of ht _),
    run_bind_of_ok (operator_eq_ok (p := p₁.strictly).2 ⟨hop, rfl⟩),
    run_bind_of_ok (run_advance_of hm.strictly), run_infoFrom_bind, run_looksAtPostfix_bind, strictly_atPostfix,
    if_neg (ne_true_of_eq_false ha')]
  exact .same

theorem operand (hk : p.kind.startsUnary = false) (ih : ReadsStrictly n .postfixed p e q) :
    ReadsStrictly n .operand p e q := by
  intro hv fuel hf
  rw [step, Grammar.operand, run_current_bind, strictly_token, if_neg (ne_true_of_eq_false hk)]
  exact ih hv fuel hf

theorem prefixUpdate {op : UpdateOp} {a : Expr} (hk : p.kind = .incDec)
    (hop : p.operator? UpdateOp.ofText? = some op) (hm : p.Moves p₁)
    (ih : ReadsStrictly n .operand p₁ a q) (ht : a.isAssignable = true) :
    ReadsStrictly (n + 1) .operand p
      (.update op true a (q.infoFrom p.token.start (Grammar.argumentExtra p₁.kind a))) q := by
  intro hv _ _
  rw [step, Grammar.operand, run_current_bind, strictly_token, if_pos (by simp [hk, Kind.startsUnary])]
  change StrictlyEnds _ _ _ ((Grammar.unary (Nested.withLevels n)).run _)
  rw [Grammar.unary, run_looksAt_bind, if_pos (by simp [hk]), Grammar.prefixUpdate,
    run_startPosition_bind, run_bind_of_ok (operator_eq_ok (p := p.strictly).2 ⟨hop, rfl⟩),
    run_bind_of_ok (run_advance_of hm.strictly), run_current_bind]
  refine (ih.ends (hm.valid hv)).bind (fun _ => .inside List.mem_cons_self) ?_
  rw [run_bind_of_ok (run_checkTarget_of ht _)]
  exact .same

theorem prefixUnary {op : UnaryOp} {a : Expr} (hk : p.kind.startsUnary = true) (hk' : p.kind ≠ .incDec)
    (hop : p.operator? UnaryOp.ofText? = some op) (hm : p.Moves p₁)
    (ih : ReadsStrictly n .operand p₁ a q) : ReadsStrictly (n + 1) .operand p
      (.unary op true a (q.infoFrom p.token.start (Grammar.argumentExtra p₁.kind a))) q := by
  intro hv _ _
  rw [step, Grammar.operand, run_current_bind, strictly_token, if_pos hk]
  change StrictlyEnds _ _ _ ((Grammar.unary (Nested.withLevels n)).run _)
  rw [Grammar.unary, run_looksAt_bind, if_neg (by simpa using hk'), Grammar.prefixUnary,
    run_startPosition_bind, run_bind_of_ok (operator_eq_ok (p := p.strictly).2 ⟨hop, rfl⟩),
    run_bind_of_ok (run_advance_of hm.strictly), run_current_bind]
  refine (ih.ends (hm.valid hv)).bind (fun _ => .inside List.mem_cons_self) ?_
  rw [run_context_bind]
  split
  · next hd =>
    simp only [Bool.and_eq_true, beq_iff_eq] at hd
    obtain ⟨⟨-, rfl⟩, ha⟩ := hd
    exact .refused (.here ha rfl)
  · exact .same

theorem climbEnd (hs : p.Stopped least) : ReadsStrictly n (.climb start least left) p left p := by
  intro hp fuel hf
  have h : Parses n (.climb start least left) p.strictly left p.strictly := .climbEnd hs
  exact .of_ok ((Grammar.climb_iff (p := p.strictly) (Nested.follows_withLevels n) hp hf).2 h)

/-- The operator and its operands are passed; `right` is read by the loop of its own level. -/
theorem turn {k bound : Nat} (hop : p.OperatorAt least strength left node) (hm : p.Moves p₁)
    (h : Parses n .operand p₁ first p₂) (ih : ReadsStrictly n .operand p₁ first p₂)
    (h' : Parses k (.climb p₁.token.start bound first) p₂ right p₃)
    (ih' : Valid p₂.cursor → ∀ fuel, ahead p₂.cursor ≤ fuel →
      StrictlyEnds right.DeletesNameAt right p₃
        ((if p.kind.isRightAssociative then
          (Nested.withLevels n).climb first p₁.token.start (strength - 1)
        else Grammar.climb (Nested.withLevels n) p₁.token.start strength fuel first).run
          p₂.strictly))
    (h'' : Parses n (.climb start least (node left right (p₃.infoFrom start {}))) p₃ e q)
    (ih'' : ReadsStrictly n (.climb start least (node left right (p₃.infoFrom start {}))) p₃ e q) :
    ReadsStrictly n (.climb start least left) p e q := by
  intro hv fuel hf
  have hv₁ := hm.valid hv
  have hv₂ := h.valid hv₁
  have := hm.ahead_lt hv (kind_ne hop.strength_eq nofun)
  have := h.ahead_le hv₁
  have := h'.ahead_le hv₂
  have keeps {offset : Nat} (hd : right.DeletesNameAt offset) : e.DeletesNameAt offset := by
    refine h''.keeps List.mem_cons_self (.inside ?_ hd)
    rw [Parser.node?_children hop.node_eq]
    exact List.mem_cons_of_mem _ List.mem_cons_self
  cases fuel with
  | zero => omega
  | succ fuel =>
    rw [step, Grammar.run_climb_succ hop.strictly hm.strictly]
    refine (ih.ends hv₁).bind (fun _ hd => keeps (h'.keeps List.mem_cons_self hd)) ?_
    refine (ih' hv₂ fuel (by omega)).bind (fun _ => keeps) ?_
    rw [run_infoFrom_bind]
    exact ih'' (h'.valid hv₂) fuel (by omega)

theorem climbLeft (hop : p.OperatorAt least strength left node)
    (hk : p.kind.isRightAssociative = false) (hm : p.Moves p₁) (h : Parses n .operand p₁ first p₂)
    (ih : ReadsStrictly n .operand p₁ first p₂)
    (h' : Parses n (.climb p₁.token.start strength first) p₂ right p₃)
    (ih' : ReadsStrictly n (.climb p₁.token.start strength first) p₂ right p₃)
    (h'' : Parses n (.climb start least (node left right (p₃.infoFrom start {}))) p₃ e q)
    (ih'' : ReadsStrictly n (.climb start least (node left right (p₃.infoFrom start {}))) p₃ e q) :
    ReadsStrictly n (.climb start least left) p e q := by
  refine turn hop hm h ih h' (fun hv₂ fuel hf => ?_) h'' ih''
  rw [if_neg (ne_true_of_eq_false hk)]
  exact ih' hv₂ fuel hf

theorem climbRight (hop : p.OperatorAt least strength left node)
    (hk : p.kind.isRightAssociative = true) (hm : p.Moves p₁)
    (h : Parses (n + 1) .operand p₁ first p₂) (ih : ReadsStrictly (n + 1) .operand p₁ first p₂)
    (h' : Parses n (.climb p₁.token.start (strength - 1) first) p₂ right p₃)
    (ih' : ReadsStrictly n (.climb p₁.token.start (strength - 1) first) p₂ right p₃)
    (h'' : Parses (n + 1) (.climb start least (node left right (p₃.infoFrom start {}))) p₃ e q)
    (ih'' : ReadsStrictly (n + 1)
      (.climb start least (node left right (p₃.infoFrom start {}))) p₃ e q) :
    ReadsStrictly (n + 1) (.climb start least left) p e q := by
  refine turn hop hm h ih h' (fun hv₂ fuel _ => ?_) h'' ih''
  rw [if_pos hk]
  exact ih' hv₂ _ (TokenCursor.ahead_le _)

theorem chain (h : Parses n .operand p first p₁) (ih : ReadsStrictly n .operand p first p₁)
    (h' : Parses n (.climb p.token.start 0 first) p₁ e q)
    (ih' : ReadsStrictly n (.climb p.token.start 0 first) p₁ e q) : ReadsStrictly n .chain p e q := by
  intro hv _ _
  rw [step, Grammar.chain, run_startPosition_bind]
  refine (ih.ends hv).bind (fun _ => h'.keeps List.mem_cons_self) ?_
  rw [run_remaining_bind]
  exact ih' (h.valid hv) _ (TokenCursor.ahead_le _)

theorem unconditional (ih : ReadsStrictly n .chain p e q) (hk : q.kind ≠ .question) :
    ReadsStrictly n .conditional p e q := by
  intro hv _ _
  rw [step, Grammar.conditional, run_startPosition_bind]
  refine (ih.ends hv).bind (fun _ => id) ?_
  rw [run_bind_of_ok (run_eat_of_ne (p := q.strictly) hk)]
  exact .same

theorem conditional {test consequent alternate : Expr} (h : Parses (n + 1) .chain p test p₁)
    (ih : ReadsStrictly (n + 1) .chain p test p₁) (hk : p₁.kind = .question) (hm : p₁.Moves p₂)
    (h' : Parses n .assignment p₂ consequent p₃) (ih' : ReadsStrictly n .assignment p₂ consequent p₃)
    (hk' : p₃.kind = .colon) (hm' : p₃.Moves p₄)
    (ih'' : ReadsStrictly n .assignment p₄ alternate q) : ReadsStrictly (n + 1) .conditional p
      (.conditional test consequent alternate (q.infoFrom p.token.start {})) q := by
  intro hv _ _
  have hv₂ := hm.valid (h.valid hv)
  have hv₄ := hm'.valid (h'.valid hv₂)
  rw [step, Grammar.conditional, run_startPosition_bind]
  refine (ih.ends hv).bind (fun _ => .inside (by simp)) ?_
  rw [← hk, ← strictly_kind, run_bind_of_ok (run_eat_of hm.strictly), if_pos rfl]
  refine (ih'.ends hv₂).bind (fun _ => .inside (by simp)) ?_
  rw [run_bind_of_ok (run_expect_of (p := p₃.strictly) hk' hm'.strictly)]
  refine (ih''.ends hv₄).bind (fun _ => .inside (by simp)) ?_
  exact .same

theorem unassigned (hy : ¬ (p.kind = .yieldWord ∧ p.context.inGenerator = true))
    (ih : ReadsStrictly n .conditional p.marked e q) (hk : q.kind.isAssignment = false) :
    ReadsStrictly n .assignment p e q := by
  intro hv _ _
  rw [step, Grammar.run_assignment_of (p := p.strictly) hy, Parser.marked_strictly]
  refine (ih.ends (p.marked_cursor.symm ▸ hv)).bind (fun _ => id) ?_
  rw [run_current_bind, strictly_token, if_neg (ne_true_of_eq_false hk)]
  exact .same

theorem assignment {op : AssignOp} (hy : ¬ (p.kind = .yieldWord ∧ p.context.inGenerator = true))
    (h : Parses (n + 1) .conditional p.marked left p₁)
    (ih : ReadsStrictly (n + 1) .conditional p.marked left p₁) (hk : p₁.kind.isAssignment = true)
    (hop : p₁.operator? AssignOp.ofText? = some op) (ht : left.isAssignable = true)
    (hm : p₁.Moves p₂) (ih' : ReadsStrictly n .assignment p₂ right q) :
    ReadsStrictly (n + 1) .assignment p
      (.assignment op left right (q.infoFrom p.token.start {})) q := by
  intro hv _ _
  have hv' : Valid p.marked.cursor := p.marked_cursor.symm ▸ hv
  rw [step, Grammar.run_assignment_of (p := p.strictly) hy, Parser.marked_strictly]
  refine (ih.ends hv').bind (fun _ => .inside List.mem_cons_self) ?_
  rw [run_current_bind, strictly_token, if_pos hk,
    run_bind_of_ok (operator_eq_ok (p := p₁.strictly).2 ⟨hop, rfl⟩),
    run_bind_of_ok (run_checkTarget_of ht _), run_bind_of_ok (run_advance_of hm.strictly)]
  refine (ih'.ends (hm.valid (h.valid hv'))).bind (fun _ => .inside (by simp)) ?_
  exact .same

theorem single (ih : ReadsStrictly n .assignment p e q) (hk : q.kind ≠ .comma) :
    ReadsStrictly (n + 1) .expression p e q := by
  intro hv _ _
  rw [step, Grammar.sequence, run_startPosition_bind]
  refine (ih.ends hv).bind (fun _ => id) ?_
  rw [run_looksAt_bind, if_neg (by simpa using hk)]
  exact .same

theorem sequence (h : Parses n .assignment p first p₁) (ih : ReadsStrictly n .assignment p first p₁)
    (hk : p₁.kind = .comma) (h' : Parses (n + 1) (.items p.token.start [first]) p₁ e q)
    (ih' : ReadsStrictly (n + 1) (.items p.token.start [first]) p₁ e q) :
    ReadsStrictly (n + 1) .expression p e q := by
  intro hv _ _
  rw [step, Grammar.sequence, run_startPosition_bind]
  refine (ih.ends hv).bind (fun _ => h'.keeps List.mem_cons_self) ?_
  rw [run_looksAt_bind, if_pos (by simpa using hk), run_remaining_bind]
  exact ih' (h.valid hv) _ (TokenCursor.ahead_le _)

theorem itemsEnd {items : List Expr} (hk : p.kind ≠ .comma) :
    ReadsStrictly n (.items start items) p (.sequence items (p.infoFrom start {})) p := by
  intro hp fuel hf
  have h : Parses n (.items start items) p.strictly _ p.strictly := .itemsEnd hk
  obtain ⟨others, ho, he⟩ :=
    (Grammar.listTail_iff (p := p.strictly) (Nested.follows_withLevels n) hp hf).2 h
  rw [step, run_bind_of_ok ho, run_infoFrom_bind, he]
  exact .same

theorem itemsMore {items : List Expr} {item : Expr} (hk : p.kind = .comma) (hm : p.Moves p₁)
    (h : Parses n .assignment p₁ item p₂) (ih : ReadsStrictly n .assignment p₁ item p₂)
    (h' : Parses (n + 1) (.items start (items ++ [item])) p₂ e q)
    (ih' : ReadsStrictly (n + 1) (.items start (items ++ [item])) p₂ e q) :
    ReadsStrictly (n + 1) (.items start items) p e q := by
  intro hv fuel hf
  have hv₁ := hm.valid hv
  have := hm.ahead_lt hv (kind_ne (f := id) hk nofun)
  have := h.ahead_le hv₁
  cases fuel with
  | zero => omega
  | succ fuel =>
    have ih' := ih' (h.valid hv₁) fuel (by omega)
    rw [step, Grammar.listTail, bind_assoc, ← hk, ← strictly_kind,
      run_bind_of_ok (run_eat_of hm.strictly), if_pos rfl, bind_assoc]
    refine (ih.ends hv₁).bind (fun _ => h'.keeps (List.mem_append_right _ List.mem_cons_self)) ?_
    rw [step] at ih'
    simpa using ih'

end Goal.ReadsStrictly

/-- A strict parser reads what another reads, or stops at a `delete` of a name in it. -/
theorem Parses.readsStrictly {n : Nat} {goal : Goal} {e : Expr} (h : Parses n goal p e q) :
    goal.ReadsStrictly n p e q := by
  induction h with
  | number hk hv hm => exact .number hk hv hm
  | identifier hk hm => exact .identifier hk hm
  | parenthesized hk hm _ hk' hm' ih => exact .parenthesized hk hm ih hk' hm'
  | tailEnd hk => exact .tailEnd hk
  | tailMore hk hm h hk' hm' h' ih ih' => exact .tailMore hk hm h ih hk' hm' h' ih'
  | subscripts h ha h' ih ih' => exact .subscripts h ih ha h' ih'
  | plain _ ha ih => exact .plain ih ha
  | postfixUpdate _ ha ht hop hm ha' ih => exact .postfixUpdate ih ha ht hop hm ha'
  | operand hk _ ih => exact .operand hk ih
  | prefixUpdate hk hop hm _ ht ih => exact .prefixUpdate hk hop hm ih ht
  | prefixUnary hk hk' hop hm _ _ ih => exact .prefixUnary hk hk' hop hm ih
  | climbEnd hs => exact .climbEnd hs
  | climbLeft hop hk hm h h' h'' ih ih' ih'' => exact .climbLeft hop hk hm h ih h' ih' h'' ih''
  | climbRight hop hk hm h h' h'' ih ih' ih'' => exact .climbRight hop hk hm h ih h' ih' h'' ih''
  | chain h h' ih ih' => exact .chain h ih h' ih'
  | unconditional _ hk ih => exact .unconditional ih hk
  | conditional h hk hm h' hk' hm' _ ih ih' ih'' =>
    exact .conditional h ih hk hm h' ih' hk' hm' ih''
  | unassigned hy _ hk ih => exact .unassigned hy ih hk
  | assignment hy h hk hop ht hm _ ih ih' => exact .assignment hy h ih hk hop ht hm ih'
  | single _ hk ih => exact .single ih hk
  | sequence h hk h' ih ih' => exact .sequence h ih hk h' ih'
  | itemsEnd hk => exact .itemsEnd hk
  | itemsMore hk hm h h' ih ih' => exact .itemsMore hk hm h ih h' ih'

end ArithLang
