import ArithLang.Proofs.Parser.Derivation
import ArithLang.Proofs.Parser.Recorded

/-!
A call does not look back. It begins with the current token, and asks where the last token stopped only
when it has passed one; so parsers that differ in nothing else answer alike.
-/

namespace ArithLang

variable {C : Type} [TokenCursor C]

/-- The cursors differ at most in what is behind them. -/
structure TokenCursor.SameAhead (c d : C) : Prop where
  current_eq : current c = current d
  input_eq : input c = input d
  advance_eq : advance c = advance d

namespace Parser

variable {p q : Parser C}

/-- The parsers differ at most in where the last token stopped. -/
structure SameAhead (p q : Parser C) : Prop where
  cursor : TokenCursor.SameAhead p.cursor q.cursor
  context_eq : p.context = q.context
  arrowStart_eq : p.arrowStart = q.arrowStart

namespace SameAhead

variable (h : p.SameAhead q)

include h

theorem token_eq : p.token = q.token := h.cursor.current_eq

theorem kind_eq : p.kind = q.kind := congrArg Token.kind h.token_eq

theorem operator?_eq {α : Type} (ofText? : String → Option α) :
    p.operator? ofText? = q.operator? ofText? := by
  rw [operator?, operator?, h.token_eq]

theorem marked : p.marked.SameAhead q.marked := by
  unfold Parser.marked
  rw [h.kind_eq, h.token_eq]
  split
  · exact ⟨h.cursor, h.context_eq, rfl⟩
  · exact h

theorem with_cursor (c : C) : { p with cursor := c } = { q with cursor := c } := by
  rw [h.context_eq, h.arrowStart_eq]

end SameAhead

end Parser

namespace Step

open Grammar

/-- Two runs come to the same, or fail alike with nothing passed. -/
inductive Agrees {α : Type} : EStateM.Result SyntaxError (Parser C) α →
    EStateM.Result SyntaxError (Parser C) α → Prop
  | same : Agrees r r
  | failed : p.SameAhead q → Agrees (.error e p) (.error e q)

variable {α β : Type} {p q : Parser C} {inner : Nested C}

theorem Agrees.bind {x : Step C α} (hx : Agrees (x.run p) (x.run q)) (f : α → Step C β) :
    Agrees ((x >>= f).run p) ((x >>= f).run q) := by
  rw [EStateM.run_bind, EStateM.run_bind]
  generalize x.run p = r at hx
  generalize x.run q = r' at hx
  cases hx with
  | same => exact .same
  | failed h => exact .failed h

/-- The steps of the next level that a construct may begin with do not look back either. -/
structure Forward (inner : Nested C) : Prop where
  assignment {p q : Parser C} : p.SameAhead q →
    Agrees (inner.assignment.run p) (inner.assignment.run q)
  unary {p q : Parser C} : p.SameAhead q → Agrees (inner.unary.run p) (inner.unary.run q)

section

variable (h : p.SameAhead q)

include h

theorem failHere_agrees (fault : SyntaxFault) :
    Agrees ((failHere fault : Step C α).run p) ((failHere fault).run q) := by
  change Agrees (.error (.fault fault p.token.start.offset) p) _
  rw [h.token_eq]
  exact .failed h

theorem unexpected_agrees (expected : String) :
    Agrees ((unexpected expected : Step C α).run p) ((unexpected expected).run q) := by
  change Agrees (.error (.fault (.unexpected expected (.ofList p.token.description))
    p.token.start.offset) p) _
  rw [h.token_eq]
  exact .failed h

theorem advance_agrees : Agrees ((advance : Step C Unit).run p) (advance.run q) := by
  rw [run_advance, run_advance, h.cursor.advance_eq]
  simp only [h.with_cursor]
  exact .same

theorem operator_agrees {ofText? : String → Option α} {f : α → Step C β}
    (hf : ∀ op, Agrees ((f op).run p) ((f op).run q)) :
    Agrees ((operator ofText? >>= f).run p) ((operator ofText? >>= f).run q) := by
  rw [run_operator_bind, run_operator_bind, ← h.operator?_eq]
  split
  · exact hf _
  · exact unexpected_agrees h _

theorem numberLiteral_agrees : Agrees ((numberLiteral : Step C Expr).run p) (numberLiteral.run q) := by
  rw [numberLiteral, run_current_bind, run_current_bind, ← h.token_eq]
  split
  · exact unexpected_agrees h _
  · rw [run_get_bind, run_get_bind, ← h.cursor.input_eq]
    exact (advance_agrees h).bind _

theorem identifier_agrees : Agrees ((identifier : Step C Expr).run p) (identifier.run q) := by
  rw [identifier, run_current_bind, run_current_bind, ← h.token_eq]
  exact (advance_agrees h).bind _

theorem parenthesized_agrees :
    Agrees ((parenthesized inner).run p) ((parenthesized inner).run q) := by
  rw [parenthesized, run_startPosition_bind, run_startPosition_bind, ← h.token_eq]
  exact (advance_agrees h).bind _

theorem atom_agrees : Agrees ((atom inner).run p) ((atom inner).run q) := by
  rw [atom, run_current_bind, run_current_bind, ← h.token_eq]
  split
  · exact numberLiteral_agrees h
  · exact identifier_agrees h
  · exact parenthesized_agrees h
  · exact unexpected_agrees h _

theorem subscripts_agrees : Agrees ((subscripts inner).run p) ((subscripts inner).run q) := by
  rw [subscripts, run_startPosition_bind, run_startPosition_bind, run_get_bind, run_get_bind,
    ← h.token_eq, ← h.arrowStart_eq]
  exact (atom_agrees h).bind _

theorem postfixed_agrees : Agrees ((postfixed inner).run p) ((postfixed inner).run q) := by
  rw [postfixed, run_startPosition_bind, run_startPosition_bind, ← h.token_eq]
  exact (subscripts_agrees h).bind _

theorem unary_agrees : Agrees ((unary inner).run p) ((unary inner).run q) := by
  rw [unary, run_looksAt_bind, run_looksAt_bind, ← h.kind_eq]
  split
  · rw [prefixUpdate, run_startPosition_bind, run_startPosition_bind, ← h.token_eq]
    exact operator_agrees h fun op => (advance_agrees h).bind _
  · rw [prefixUnary, run_startPosition_bind, run_startPosition_bind, ← h.token_eq]
    exact operator_agrees h fun op => (advance_agrees h).bind _

variable (hi : Forward inner)

include hi

theorem operand_agrees : Agrees ((operand inner).run p) ((operand inner).run q) := by
  rw [operand, run_current_bind, run_current_bind, ← h.token_eq]
  split
  · exact hi.unary h
  · exact postfixed_agrees h

theorem chain_agrees : Agrees ((chain inner).run p) ((chain inner).run q) := by
  rw [chain, run_startPosition_bind, run_startPosition_bind, ← h.token_eq]
  exact (operand_agrees h hi).bind _

theorem conditional_agrees : Agrees ((conditional inner).run p) ((conditional inner).run q) := by
  rw [conditional, run_startPosition_bind, run_startPosition_bind, ← h.token_eq]
  exact (chain_agrees h hi).bind _

theorem assignment_agrees : Agrees ((assignment inner).run p) ((assignment inner).run q) := by
  by_cases hy : p.kind = .yieldWord ∧ p.context.inGenerator = true
  · rw [assignment, run_current_bind, run_current_bind, run_context_bind, run_context_bind,
      ← h.token_eq, ← h.context_eq, if_pos (by simpa [Parser.kind] using hy)]
    exact failHere_agrees h _
  · rw [run_assignment_of hy, run_assignment_of (h.kind_eq ▸ h.context_eq ▸ hy), ← h.token_eq]
    exact (conditional_agrees h.marked hi).bind _

theorem sequence_agrees : Agrees ((Grammar.sequence inner).run p) ((Grammar.sequence inner).run q) := by
  rw [Grammar.sequence, run_startPosition_bind, run_startPosition_bind, ← h.token_eq]
  exact (hi.assignment h).bind _

end

theorem forward_withLevels (levels : Nat) : Forward (Nested.withLevels levels : Nested C) := by
  induction levels with
  | zero => exact ⟨fun h => failHere_agrees h _, fun h => failHere_agrees h _⟩
  | succ levels ih => exact ⟨fun h => assignment_agrees h ih, fun h => unary_agrees h⟩

theorem call_agrees (h : p.SameAhead q) (c : Call) : Agrees (c.step.run p) (c.step.run q) := by
  cases c with
  | expression => exact sequence_agrees h (forward_withLevels _)
  | toEnd => exact (sequence_agrees h (forward_withLevels _)).bind _

end Step

namespace Parser

variable {p q : Parser C}

theorem SameAhead.call (h : p.SameAhead q) (c : Call) :
    (p.call c).1 = (q.call c).1 ∧ ((p.call c).2 = (q.call c).2 ∨ (p.call c).2.SameAhead (q.call c).2) := by
  have hr := Step.call_agrees h c
  rw [Parser.call, Parser.call, run, run]
  generalize c.step.run p = r at hr
  generalize c.step.run q = r' at hr
  cases hr with
  | same => exact ⟨rfl, .inl rfl⟩
  | failed h => exact ⟨rfl, .inr h⟩

/-- What calls answer does not depend on what is behind the current token. -/
theorem SameAhead.answers_eq (h : p.SameAhead q) (calls : List Call) :
    p.answers calls = q.answers calls := by
  induction calls generalizing p q with
  | nil => rfl
  | cons c calls ih =>
    obtain ⟨hr, hq⟩ := h.call c
    have hrest : (p.call c).2.answers calls = (q.call c).2.answers calls := by
      obtain heq | hq := hq
      · rw [heq]
      · exact ih hq
    by_cases hl : ∃ e, (p.call c).1 = .error (.lexical e)
    · obtain ⟨e, hp⟩ := hl
      rw [answers_of_lexical hp, answers_of_lexical (hr ▸ hp)]
    · have hne := not_exists.1 hl
      rw [answers_of_ne hne, answers_of_ne (hr ▸ hne), hr, hrest]

end Parser

end ArithLang
