import ArithLang.Proofs.Expr.Plain
import ArithLang.Proofs.Parser.Reads

/-!
What a parser has before it: the tokens up to some cursor, none of them a postfix operator that a
line break cuts off, and the kind of the token that stands there.
-/

namespace ArithLang

open TokenCursor (Passes current hasLineBreakBefore)

namespace Kind

/-- Nothing that would go on with an operand. -/
def endsOperand (k : Kind) : Bool := k != .bracketL && k != .arrow && !k.isPostfix

/-- Nothing that would go on with an expression without a comma. -/
def endsItem (k : Kind) : Bool :=
  k.endsOperand && (Grammar.chainStrength? k).isNone && k != .question && !k.isAssignment

def endsExpression (k : Kind) : Bool := k.endsItem && k != .comma

variable {k : Kind}

theorem endsOperand_iff : k.endsOperand = true ↔
    k ≠ .bracketL ∧ k ≠ .arrow ∧ k.isPostfix = false := by
  simp [endsOperand, and_assoc]

theorem endsItem_iff : k.endsItem = true ↔
    k.endsOperand = true ∧ Grammar.chainStrength? k = none ∧ k ≠ .question ∧
      k.isAssignment = false := by
  simp [endsItem, and_assoc]

theorem endsExpression_iff : k.endsExpression = true ↔ k.endsItem = true ∧ k ≠ .comma := by
  simp [endsExpression]

theorem endsOperand_of_strength {s : Nat} (h : Grammar.chainStrength? k = some s) :
    k.endsOperand = true := by
  cases k <;> first | rfl | cases h

theorem endsOperand_of_assignment (h : k.isAssignment = true) : k.endsOperand = true := by
  cases k <;> first | rfl | cases h

end Kind

variable {C : Type} [TokenCursor C]

namespace TokenCursor

/-- Moves from the first cursor to the last pass tokens that say this. -/
def Shows (c : C) (ls : List Lexeme) (c' : C) : Prop :=
  ∃ ts, Passes c ts c' ∧ ts.map Token.lexeme = ls

variable {c c' : C} {l : Lexeme} {ls ms : List Lexeme}

theorem Shows.eq_of_nil (h : Shows c [] c') : c = c' := by
  obtain ⟨ts, hp, ht⟩ := h
  cases List.map_eq_nil_iff.1 ht
  exact hp.eq_of_nil

theorem Shows.split (h : Shows c (ls ++ ms) c') : ∃ d, Shows c ls d ∧ Shows d ms c' := by
  obtain ⟨ts, hp, ht⟩ := h
  obtain ⟨us, vs, rfl, rfl, rfl⟩ := List.map_eq_append_iff.1 ht
  obtain ⟨d, hu, hv⟩ := hp.split
  exact ⟨d, ⟨us, hu, rfl⟩, ⟨vs, hv, rfl⟩⟩

theorem Shows.of_cons (h : Shows c (l :: ls) c') :
    (current c).lexeme = l ∧ (current c).kind ≠ .eof ∧
      ∃ d, advance c = (.ok (), d) ∧ Shows d ls c' := by
  obtain ⟨ts, hp, ht⟩ := h
  cases hp with
  | refl => cases ht
  | step hk ha hp =>
    obtain ⟨hl, ht⟩ := List.cons.inj ht
    exact ⟨hl, hk, _, ha, _, hp, ht⟩

end TokenCursor

open TokenCursor (Shows)

namespace Parser

/-- These tokens lie between the parser and the cursor. Where statements may end, no line break
stands before a `++` or `--` that follows something to be assigned to. -/
structure Faces (p : Parser C) (ls : List Lexeme) (c : C) : Prop where
  shows : Shows p.cursor ls c
  unbroken : p.context.statementTerminators = true → ∀ us u d vs, Passes p.cursor (us ++ [u]) d →
    Passes d vs c → u.kind.closesTarget = true → (current d).kind = .incDec →
    hasLineBreakBefore d = false

variable {p q : Parser C} {c d : C} {l l' : Lexeme} {ls ms : List Lexeme}

theorem Faces.eq_of_nil (h : p.Faces [] c) : p.cursor = c := h.shows.eq_of_nil

theorem Faces.lexeme_eq (h : p.Faces (l :: ls) c) : p.token.lexeme = l := h.shows.of_cons.1

theorem Faces.moves (h : p.Faces (l :: ls) c) :
    ∃ q, p.Moves q ∧ q.context = p.context ∧ q.Faces ls c := by
  obtain ⟨-, hk, d, ha, hs⟩ := h.shows.of_cons
  refine ⟨{ p with cursor := d }, ⟨ha, rfl, rfl⟩, rfl, hs, fun ht us u d' vs hu => ?_⟩
  exact h.unbroken ht (_ :: us) u d' vs (.step hk ha hu)

theorem Faces.marked (h : p.Faces ls c) : p.marked.Faces ls c := by
  obtain ⟨hs, hb⟩ := h
  rw [← p.marked_cursor] at hs hb
  rw [← p.marked_context] at hb
  exact ⟨hs, hb⟩

/-- Facing one part after the other. -/
theorem Faces.split (h : p.Faces (ls ++ ms) c) : ∃ d, p.Faces ls d ∧ Shows d ms c ∧
    ∀ q : Parser C, q.cursor = d → q.context = p.context → q.Faces ms c := by
  obtain ⟨d, ⟨us, hu, rfl⟩, hd⟩ := h.shows.split
  obtain ⟨vs, hv, rfl⟩ := hd
  refine ⟨d, ⟨⟨us, hu, rfl⟩, fun ht us' u d' vs' hu' hv' => ?_⟩, ⟨vs, hv, rfl⟩, ?_⟩
  · exact h.unbroken ht us' u d' _ hu' (hv'.trans hv)
  · rintro q rfl hx
    refine ⟨⟨vs, hv, rfl⟩, fun ht us' u d' vs' hu' => ?_⟩
    have hu' := hu.trans hu'
    rw [← List.append_assoc] at hu'
    exact h.unbroken (hx ▸ ht) _ u d' vs' hu'

/-- A `++` or `--` that follows something to be assigned to is a postfix operator. -/
theorem Faces.atPostfix (h : p.Faces (ls ++ l :: l' :: ms) c) (hl : l.1.closesTarget = true)
    (hl' : l'.1 = .incDec) (hd : Shows p.cursor (ls ++ [l]) d) (hs : Shows d (l' :: ms) c)
    (hq : q.cursor = d) (hx : q.context = p.context) : q.atPostfix = true := by
  subst hq
  have hk : q.kind = .incDec := (Prod.mk.inj hs.of_cons.1).1.trans hl'
  rw [Parser.atPostfix, hk, mayEndStatement, hk, hx]
  cases ht : p.context.statementTerminators with
  | false => rfl
  | true =>
    obtain ⟨ts, hp, hts⟩ := hd
    obtain ⟨us, _, rfl, -, hu⟩ := List.map_eq_append_iff.1 hts
    obtain ⟨u, rfl, rfl⟩ := List.map_eq_singleton_iff.1 hu
    obtain ⟨vs, hv, -⟩ := hs
    rw [h.unbroken ht us u q.cursor vs hp hv hl hk]
    rfl

theorem atPostfix_of_ends (h : p.kind.endsOperand = true) : p.atPostfix = false := by
  rw [Parser.atPostfix, (Kind.endsOperand_iff.1 h).2.2, Bool.false_and]

end Parser

end ArithLang
