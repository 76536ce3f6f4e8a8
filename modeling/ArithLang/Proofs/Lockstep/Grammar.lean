import ArithLang.Parser
import ArithLang.Proofs.Lockstep.Step
import ArithLang.Proofs.Parser.Rules

/-! The grammar keeps parsers in lockstep, construct by construct. -/

namespace ArithLang.Lockstep

open Grammar Step

variable {C C' : Type} [TokenCursor C] [TokenCursor C'] {L : Lockstep C C'}
  {p : Parser C} {p' : Parser C'} {inner : Nested C} {inner' : Nested C'}

/-- The steps of the next level keep parsers in lockstep. -/
structure Inner (L : Lockstep C C') (inner : Nested C) (inner' : Nested C') : Prop where
  assignment {p : Parser C} {p' : Parser C'} : L.Parsers L.cursor p p' →
    L.Ends (Expr.Alike L.layout) p p' (inner.assignment.run p) (inner'.assignment.run p')
  unary {p : Parser C} {p' : Parser C'} : L.Parsers L.cursor p p' → p.kind.startsUnary = true →
    L.Ends (Expr.Alike L.layout) p p' (inner.unary.run p) (inner'.unary.run p')
  climb {p : Parser C} {p' : Parser C'} {left left' : Expr} {start start' : Position}
    {least : Nat} : L.Parsers L.cursor p p' → left.Alike L.layout left' →
    L.layout.start start start' →
    L.Ends (Expr.Alike L.layout) p p' ((inner.climb left start least).run p)
      ((inner'.climb left' start' least).run p')

/-- Lists of trees that are alike one by one. -/
def AlikeItems (l : Layout) (es es' : List Expr) : Prop :=
  ∃ pairs : List (Expr × Expr), (∀ x ∈ pairs, x.1.Alike l x.2) ∧
    es = pairs.map Prod.fst ∧ es' = pairs.map Prod.snd

theorem AlikeItems.cons {l : Layout} {e e' : Expr} {es es' : List Expr} (h : e.Alike l e')
    (hs : AlikeItems l es es') : AlikeItems l (e :: es) (e' :: es') := by
  obtain ⟨pairs, hp, rfl, rfl⟩ := hs
  exact ⟨(e, e') :: pairs, List.forall_mem_cons.2 ⟨h, hp⟩, rfl, rfl⟩

theorem alike_empty {l : Layout} : ({} : Extra).Alike l {} := ⟨rfl, .none, rfl, .none, rfl⟩

/-! At the end of the tokens a loop stops, whatever its bound. -/

theorem listTail_of_eof (hk : p.kind = .eof) (n : Nat) :
    (listTail inner n).run p = .ok [] p := by
  cases n with
  | zero => rfl
  | succ n =>
    rw [Grammar.listTail, run_eat_bind, if_neg (by simp [hk])]
    rfl

theorem subscriptTail_of_eof (hk : p.kind = .eof) (start : Position) (n : Nat) (base : Expr) :
    (subscriptTail inner start n base).run p = .ok base p := by
  cases n with
  | zero => rfl
  | succ n =>
    rw [Grammar.subscriptTail, run_eat_bind, if_neg (by simp [hk])]
    rfl

theorem climb_of_eof (hk : p.kind = .eof) (start : Position) (least n : Nat) (left : Expr) :
    (climb inner start least n left).run p = .ok left p := by
  cases n with
  | zero => rfl
  | succ n =>
    rw [Grammar.climb, run_current_bind]
    simp only [Parser.token_kind, hk]
    rfl

section

variable (h : L.Parsers L.cursor p p')

include h

theorem numberLiteral (hk : p.kind = .num) :
    L.Ends (Expr.Alike L.layout) p p' (numberLiteral.run p) (numberLiteral.run p') := by
  rw [Grammar.numberLiteral, Grammar.numberLiteral, run_current_bind, run_current_bind, ← h.value_eq]
  cases hv : p.token.value with
  | number v =>
    simp only [Value.number?, run_get_bind]
    refine h.advance (by simp [hk]) fun q q' hq => ?_
    rw [run_infoFrom_bind, run_infoFrom_bind]
    refine hq.parsers.pure (.number (hq.parsers.info h.start ?_))
    exact ⟨rfl, .none, rfl, .some (L.raw h.cursor hk), rfl⟩
  | none | text => exact h.unexpected _

theorem identifier (hk : p.kind = .name) :
    L.Ends (Expr.Alike L.layout) p p' (identifier.run p) (identifier.run p') := by
  rw [Grammar.identifier, Grammar.identifier, run_current_bind, run_current_bind, ← h.value_eq]
  refine h.advance (by simp [hk]) fun q q' hq => ?_
  rw [run_infoFrom_bind, run_infoFrom_bind]
  exact hq.parsers.pure (.identifier (hq.parsers.info h.start alike_empty))

variable (hi : Inner L inner inner')

include hi

theorem listTail {n n' : Nat} (hf : L.fuel p.cursor p'.cursor n n') :
    L.Ends (AlikeItems L.layout) p p' ((listTail inner n).run p) ((listTail inner' n').run p') := by
  have nil : AlikeItems L.layout [] [] := ⟨[], nofun, rfl, rfl⟩
  refine h.fuel_induction (motive := fun p p' n n' => L.Ends (AlikeItems L.layout) p p'
    ((Grammar.listTail inner n).run p) ((Grammar.listTail inner' n').run p')) ?_ ?_ ?_ hf
  · intro p p' n n' h hk
    rw [listTail_of_eof hk, listTail_of_eof (h.kind_eq ▸ hk)]
    exact .ok nil (.refl h)
  · intro p p' h
    exact h.pure nil
  · intro p p' n n' h hf ih
    rw [Grammar.listTail, Grammar.listTail]
    refine h.eat nofun (fun _ q q' hq => ?_) fun _ => h.pure nil
    refine (hi.assignment hq.parsers).bind fun e e' r r' he hr => ?_
    refine (ih hr.parsers (hr.fuel _ _ (hq.fuel_succ _ _ hf))).bind fun es es' s s' hes hs => ?_
    exact hs.parsers.pure (hes.cons he)

theorem sequence :
    L.Ends (Expr.Alike L.layout) p p' ((sequence inner).run p) ((sequence inner').run p') := by
  rw [Grammar.sequence, Grammar.sequence, run_startPosition_bind, run_startPosition_bind]
  refine (hi.assignment h).bind fun e e' q q' he hq => ?_
  rw [run_looksAt_bind, run_looksAt_bind, ← hq.parsers.kind_eq]
  split
  · rw [run_remaining_bind, run_remaining_bind]
    have hf := L.fuel_remaining hq.parsers.cursor
    refine (listTail hq.parsers hi hf).bind fun es es' r r' hes hr => ?_
    rw [run_infoFrom_bind, run_infoFrom_bind]
    obtain ⟨pairs, hp, hl, hr'⟩ := hes.cons he
    rw [hl, hr']
    exact hr.parsers.pure (.sequence (hr.parsers.info h.start alike_empty) hp)
  · exact hq.parsers.pure he

theorem parenthesized (hk : p.kind = .parenL) :
    L.Ends (Expr.Alike L.layout) p p' ((parenthesized inner).run p)
      ((parenthesized inner').run p') := by
  rw [Grammar.parenthesized, Grammar.parenthesized, run_startPosition_bind, run_startPosition_bind]
  refine h.advance (by simp [hk]) fun q q' hq => ?_
  refine (sequence hq.parsers hi).bind fun e e' r r' he hr => ?_
  refine hr.parsers.expect nofun fun s s' hs => ?_
  exact hs.parsers.pure (he.parenthesize h.offsets)

theorem atom : L.Ends (Expr.Alike L.layout) p p' ((atom inner).run p) ((atom inner').run p') := by
  rw [Grammar.atom, Grammar.atom, run_current_bind, run_current_bind]
  simp only [Parser.token_kind, ← h.kind_eq]
  split
  · next hk => exact numberLiteral h hk
  · next hk => exact identifier h hk
  · next hk => exact parenthesized h hi hk
  · exact h.unexpected _

theorem subscriptTail {n n' : Nat} {start start' : Position} {base base' : Expr}
    (hf : L.fuel p.cursor p'.cursor n n') (hs : L.layout.start start start')
    (hb : base.Alike L.layout base') :
    L.Ends (Expr.Alike L.layout) p p' ((subscriptTail inner start n base).run p)
      ((subscriptTail inner' start' n' base').run p') := by
  refine h.fuel_induction (motive := fun p p' n n' => ∀ {base base' : Expr},
    base.Alike L.layout base' → L.Ends (Expr.Alike L.layout) p p'
      ((Grammar.subscriptTail inner start n base).run p)
      ((Grammar.subscriptTail inner' start' n' base').run p')) ?_ ?_ ?_ hf hb
  · intro p p' n n' h hk base base' hb
    rw [subscriptTail_of_eof hk, subscriptTail_of_eof (h.kind_eq ▸ hk)]
    exact .ok hb (.refl h)
  · intro p p' h base base' hb
    exact h.pure hb
  · intro p p' n n' h hf ih base base' hb
    rw [Grammar.subscriptTail, Grammar.subscriptTail]
    refine h.eat nofun (fun _ q q' hq => ?_) fun _ => h.pure hb
    refine (sequence hq.parsers hi).bind fun e e' r r' he hr => ?_
    refine hr.parsers.expect nofun fun s s' hs' => ?_
    rw [run_infoFrom_bind, run_infoFrom_bind]
    have hf := hs'.fuel _ _ (hr.fuel _ _ (hq.fuel_succ _ _ hf))
    exact ih hs'.parsers hf (.member (hs'.parsers.info hs alike_empty) hb he)

theorem subscripts :
    L.Ends (Expr.Alike L.layout) p p' ((subscripts inner).run p) ((subscripts inner').run p') := by
  rw [Grammar.subscripts, Grammar.subscripts, run_startPosition_bind, run_startPosition_bind,
    run_get_bind, run_get_bind]
  refine (atom h hi).bind fun e e' q q' he hq => ?_
  rw [run_looksAt_bind, run_looksAt_bind, ← hq.parsers.kind_eq]
  have : (p.arrowStart == some p.token.start.offset) = (p'.arrowStart == some p'.token.start.offset) := by
    rw [Bool.eq_iff_iff]
    simpa using h.arrowStart_iff
  rw [this]
  split
  · exact hq.parsers.failHere _
  · rw [run_remaining_bind, run_remaining_bind]
    exact subscriptTail hq.parsers hi (L.fuel_remaining hq.parsers.cursor) h.start he

theorem postfixed :
    L.Ends (Expr.Alike L.layout) p p' ((postfixed inner).run p) ((postfixed inner').run p') := by
  rw [Grammar.postfixed, Grammar.postfixed, run_startPosition_bind, run_startPosition_bind]
  refine (subscripts h hi).bind fun e e' q q' he hq => ?_
  rw [run_looksAtPostfix_bind, run_looksAtPostfix_bind, ← hq.parsers.atPostfix_eq]
  split
  · next ha =>
    refine hq.parsers.checkTarget he fun _ => hq.parsers.operator fun op _ => ?_
    have hk : q.kind ≠ .eof := by
      intro hk
      simp [Parser.atPostfix, hk, Kind.isPostfix] at ha
    refine hq.parsers.advance hk fun r r' hr => ?_
    rw [run_infoFrom_bind, run_infoFrom_bind, run_looksAtPostfix_bind, run_looksAtPostfix_bind,
      ← hr.parsers.atPostfix_eq]
    have hi := hr.parsers.info h.start alike_empty
    split
    · exact hr.parsers.failAt (.intro hi.start)
    · exact hr.parsers.pure (.update hi he)
  · exact hq.parsers.pure he

theorem operand :
    L.Ends (Expr.Alike L.layout) p p' ((operand inner).run p) ((operand inner').run p') := by
  rw [Grammar.operand, Grammar.operand, run_current_bind, run_current_bind]
  simp only [Parser.token_kind, ← h.kind_eq]
  split
  · next hk => exact hi.unary h hk
  · exact postfixed h hi

omit h hi in
theorem alike_argument {l : Layout} {e e' : Expr} (he : e.Alike l e') (k : Kind) :
    (argumentExtra k e).Alike l (argumentExtra k e') := by
  rw [argumentExtra, he.isParenthesized_eq]
  exact ⟨rfl, .none, rfl, .none, rfl⟩

theorem prefixUpdate (hk : p.kind = .incDec) :
    L.Ends (Expr.Alike L.layout) p p' ((prefixUpdate inner).run p)
      ((prefixUpdate inner').run p') := by
  rw [Grammar.prefixUpdate, Grammar.prefixUpdate, run_startPosition_bind, run_startPosition_bind]
  refine h.operator fun op _ => h.advance (by simp [hk]) fun q q' hq => ?_
  rw [run_current_bind, run_current_bind]
  refine (operand hq.parsers hi).bind fun e e' r r' he hr => ?_
  refine hr.parsers.checkTarget he fun _ => ?_
  rw [run_infoFrom_bind, run_infoFrom_bind, Parser.token_kind, Parser.token_kind,
    ← hq.parsers.kind_eq]
  exact hr.parsers.pure (.update (hr.parsers.info h.start (alike_argument he _)) he)

theorem prefixUnary (hk : p.kind.startsUnary = true) :
    L.Ends (Expr.Alike L.layout) p p' ((prefixUnary inner).run p)
      ((prefixUnary inner').run p') := by
  rw [Grammar.prefixUnary, Grammar.prefixUnary, run_startPosition_bind, run_startPosition_bind]
  have hn : p.kind ≠ .eof := by
    intro h
    simp [h, Kind.startsUnary] at hk
  refine h.operator fun op _ => h.advance hn fun q q' hq => ?_
  rw [run_current_bind, run_current_bind]
  refine (operand hq.parsers hi).bind fun e e' r r' he hr => ?_
  rw [run_context_bind, run_context_bind, Parser.token_kind, Parser.token_kind,
    ← hq.parsers.kind_eq, ← he.isIdentifier_eq]
  have value : L.Ends (Expr.Alike L.layout) r r'
      (.ok (.unary op true e (r.infoFrom p.token.start (argumentExtra q.kind e))) r)
      (.ok (.unary op true e' (r'.infoFrom p'.token.start (argumentExtra q.kind e'))) r') :=
    .ok (.unary (hr.parsers.info h.start (alike_argument he _)) he) (.refl hr.parsers)
  obtain hs | ⟨hs, hx⟩ := L.strict_eq hr.parsers.context
  · rw [← hs]
    split
    · exact hr.parsers.failAt h.offsets
    · exact value
  · rw [hs, Bool.false_and, Bool.false_and]
    split
    · exact .excused (hx _)
    · exact value

theorem unary (hk : p.kind.startsUnary = true) :
    L.Ends (Expr.Alike L.layout) p p' ((unary inner).run p) ((unary inner').run p') := by
  rw [Grammar.unary, Grammar.unary, run_looksAt_bind, run_looksAt_bind, ← h.kind_eq]
  split
  · next hu => exact prefixUpdate h hi (eq_of_beq hu)
  · exact prefixUnary h hi hk

/-! The binary operators. -/

omit hi in
theorem checkPowerBase {β β' : Type} {B : β → β' → Prop} {k : Kind} {left left' : Expr}
    {f : Unit → Step C β} {f' : Unit → Step C' β'} (hl : left.Alike L.layout left')
    (hf : L.Ends B p p' ((f ()).run p) ((f' ()).run p')) :
    L.Ends B p p' ((checkPowerBase k left >>= f).run p) ((checkPowerBase k left' >>= f').run p') := by
  cases hl with
  | unary hi ha =>
    rw [Grammar.checkPowerBase, Grammar.checkPowerBase, ← hi.extra.argument_eq,
      ← hi.extra.parenthesized_eq]
    split
    · exact h.failAt (.intro ha.start)
    · exact hf
  | _ => exact hf

omit hi in
theorem binaryNode {β β' : Type} {B : β → β' → Prop} {f : (Expr → Expr → Info → Expr) → Step C β}
    {f' : (Expr → Expr → Info → Expr) → Step C' β'}
    (hf : ∀ node : Expr → Expr → Info → Expr,
      (∀ {l l' r r' i i'}, l.Alike L.layout l' → r.Alike L.layout r' → i.Alike L.layout i' →
        (node l r i).Alike L.layout (node l' r' i')) →
      L.Ends B p p' ((f node).run p) ((f' node).run p')) :
    L.Ends B p p' ((binaryNode p.kind >>= f).run p) ((binaryNode p.kind >>= f').run p') := by
  have hn : p.node? = p'.node? := by
    rw [Parser.node?, Parser.node?, h.kind_eq, h.operator?_eq, h.operator?_eq]
  have hr := Parser.run_binaryNode_bind (p := p') f'
  rw [← h.kind_eq, ← hn] at hr
  rw [Parser.run_binaryNode_bind, hr]
  cases hn : p.node? with
  | none => exact h.unexpected _
  | some node =>
    apply hf
    obtain ⟨op, -, rfl⟩ | ⟨op, -, rfl⟩ := Parser.node?_eq_some hn
    · exact fun hl hr hi => .logical hi hl hr
    · exact fun hl hr hi => .binary hi hl hr

theorem climb {n n' least : Nat} {start start' : Position} {left left' : Expr}
    (hf : L.fuel p.cursor p'.cursor n n') (hs : L.layout.start start start')
    (hl : left.Alike L.layout left') :
    L.Ends (Expr.Alike L.layout) p p' ((climb inner start least n left).run p)
      ((climb inner' start' least n' left').run p') := by
  refine h.fuel_induction (motive := fun p p' n n' => ∀ {start start' : Position} {least : Nat}
    {left left' : Expr}, L.layout.start start start' → left.Alike L.layout left' →
      L.Ends (Expr.Alike L.layout) p p' ((Grammar.climb inner start least n left).run p)
        ((Grammar.climb inner' start' least n' left').run p')) ?_ ?_ ?_ hf hs hl
  · intro p p' n n' h hk start start' least left left' _ hl
    rw [climb_of_eof hk, climb_of_eof (h.kind_eq ▸ hk)]
    exact .ok hl (.refl h)
  · intro p p' h start start' least left left' _ hl
    exact h.pure hl
  · intro p p' n n' h hf ih start start' least left left' hs hl
    rw [Grammar.climb, Grammar.climb, run_current_bind, run_current_bind]
    simp only [Parser.token_kind, ← h.kind_eq]
    split
    · exact h.pure hl
    · next strength hk =>
      split
      · exact h.pure hl
      · have he : p.kind ≠ .eof := by
          intro he
          simp [he, chainStrength?, Kind.strength?] at hk
        refine checkPowerBase h hl ?_
        refine binaryNode h fun node hnode => h.advance he fun q q' hq => ?_
        rw [run_startPosition_bind, run_startPosition_bind]
        refine (operand hq.parsers hi).bind fun e e' r r' he hr => ?_
        have hf := hr.fuel _ _ (hq.fuel_succ _ _ hf)
        refine Ends.bind (A := Expr.Alike L.layout) ?_ fun t t' s s' ht hs' => ?_
        · split
          · exact hi.climb hr.parsers he hq.parsers.start
          · exact ih hr.parsers hf hq.parsers.start he
        · rw [run_infoFrom_bind, run_infoFrom_bind]
          exact ih hs'.parsers (hs'.fuel _ _ hf) hs
            (hnode hl ht (hs'.parsers.info hs alike_empty))

theorem chain : L.Ends (Expr.Alike L.layout) p p' ((chain inner).run p) ((chain inner').run p') := by
  rw [Grammar.chain, Grammar.chain, run_startPosition_bind, run_startPosition_bind]
  refine (operand h hi).bind fun e e' q q' he hq => ?_
  rw [run_remaining_bind, run_remaining_bind]
  exact climb hq.parsers hi (L.fuel_remaining hq.parsers.cursor) h.start he

theorem conditional :
    L.Ends (Expr.Alike L.layout) p p' ((conditional inner).run p)
      ((conditional inner').run p') := by
  rw [Grammar.conditional, Grammar.conditional, run_startPosition_bind, run_startPosition_bind]
  refine (chain h hi).bind fun t t' q q' ht hq => ?_
  refine hq.parsers.eat nofun (fun _ r r' hr => ?_) fun _ => hq.parsers.pure ht
  refine (hi.assignment hr.parsers).bind fun c c' s s' hc hs => ?_
  refine hs.parsers.expect nofun fun u u' hu => ?_
  refine (hi.assignment hu.parsers).bind fun a a' v v' ha hv => ?_
  exact hv.parsers.pure (.conditional (hv.parsers.info h.start alike_empty) ht hc ha)

theorem assignment :
    L.Ends (Expr.Alike L.layout) p p' ((assignment inner).run p)
      ((assignment inner').run p') := by
  rw [Grammar.assignment, Grammar.assignment, run_current_bind, run_current_bind,
    run_context_bind, run_context_bind]
  simp only [Parser.token_kind, ← h.kind_eq, ← L.inGenerator_eq h.context]
  split
  · exact h.failHere _
  · rw [run_bind_of_ok run_markArrowStart, run_bind_of_ok run_markArrowStart]
    refine Ends.after ?_ h.marked
    refine (conditional h.marked.parsers hi).bind fun e e' q q' he hq => ?_
    rw [run_current_bind, run_current_bind]
    simp only [Parser.token_kind, ← hq.parsers.kind_eq]
    split
    · next hk =>
      have hn : q.kind ≠ .eof := by
        intro hn
        simp [hn, Kind.isAssignment] at hk
      refine hq.parsers.operator fun op _ => hq.parsers.checkTarget he fun _ => ?_
      refine hq.parsers.advance hn fun r r' hr => ?_
      refine (hi.assignment hr.parsers).bind fun v v' s s' hv hs => ?_
      exact hs.parsers.pure (.assignment (hs.parsers.info h.start alike_empty) he hv)
    · exact hq.parsers.pure he

end

/-- Parsers with equally many levels of nesting left stay in lockstep; one that has fewer may give up
first. -/
theorem inner_withLevels {m n : Nat} (hl : m = n ∨
    m ≤ n ∧ ∀ offset, L.excused (.fault .nestedTooDeeply offset)) :
    Inner L (Nested.withLevels m) (Nested.withLevels n) := by
  induction m generalizing n with
  | zero =>
    obtain rfl | ⟨-, hx⟩ := hl
    · exact ⟨fun h => h.failHere _, fun h _ => h.failHere _, fun h _ _ => h.failHere _⟩
    · exact ⟨fun _ => .excused (hx _), fun _ _ => .excused (hx _), fun _ _ _ => .excused (hx _)⟩
  | succ m ih =>
    obtain ⟨n, rfl, hl'⟩ : ∃ k, n = k + 1 ∧
        (m = k ∨ m ≤ k ∧ ∀ offset, L.excused (.fault .nestedTooDeeply offset)) := by
      obtain rfl | ⟨hle, hx⟩ := hl
      · exact ⟨m, rfl, .inl rfl⟩
      · exact ⟨n - 1, by omega, .inr ⟨by omega, hx⟩⟩
    have hi := ih hl'
    refine ⟨fun h => assignment h hi, fun h hk => unary h hi hk, fun {p p' _ _ _ _ _} h he hs => ?_⟩
    rw [Nested.withLevels, Nested.withLevels, run_remaining_bind, run_remaining_bind]
    exact climb h hi (L.fuel_remaining h.cursor) hs he

variable (h : L.Parsers L.cursor p p')

include h

theorem expression :
    L.Ends (Expr.Alike L.layout) p p' (Parser.expression.run p) (Parser.expression.run p') :=
  sequence h (inner_withLevels (.inl rfl))

theorem expressionToEnd :
    L.Ends (Expr.Alike L.layout) p p' (Parser.expressionToEnd.run p)
      (Parser.expressionToEnd.run p') := by
  rw [Parser.expressionToEnd, Parser.expressionToEnd]
  refine (expression h).bind fun e e' q q' he hq => ?_
  rw [run_looksAt_bind, run_looksAt_bind, ← hq.parsers.kind_eq]
  split
  · exact hq.parsers.pure he
  · exact hq.parsers.unexpected _

end ArithLang.Lockstep
