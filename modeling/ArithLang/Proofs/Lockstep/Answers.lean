import ArithLang.Proofs.Parser.Recorded

/-! Calls of parsers in lockstep, where nothing is lost between the two, answer the same. -/

namespace ArithLang.Lockstep

variable {C C' : Type} [TokenCursor C] [TokenCursor C'] {L : Lockstep C C'} {p : Parser C}
  {p' : Parser C'}

/-- The two parsers see the same positions and errors, and neither is excused from anything. -/
structure Exact (L : Lockstep C C') : Prop where
  layout_eq : L.layout = .same
  lexical_eq {e e' : LexError} : L.lexical e e' → e = e'
  not_excused {e : SyntaxError} : ¬ L.excused e

/-- Parsers after a call: in lockstep still, or stuck for want of a token. -/
def Left (L : Lockstep C C') (r : Except SyntaxError Expr) (q : Parser C) (q' : Parser C') : Prop :=
  (∃ e, r = .error (.lexical e)) ∧ L.Parsers L.stuck q q' ∨
    (∀ e, r ≠ .error (.lexical e)) ∧ L.Parsers L.cursor q q'

theorem Exact.call (hL : L.Exact) (h : L.Parsers L.cursor p p') (c : Call) :
    (p.call c).1 = (p'.call c).1 ∧ L.Left (p.call c).1 (p.call c).2 (p'.call c).2 := by
  have ends := Lockstep.call h c
  rw [Parser.call, Parser.call, Parser.run, Parser.run]
  generalize c.step.run p = x at ends
  generalize c.step.run p' = y at ends
  cases ends with
  | ok he ho =>
    rw [hL.layout_eq] at he
    exact ⟨congrArg _ he.eq, .inr ⟨by simp, ho.parsers⟩⟩
  | fault hf ho =>
    rw [hL.layout_eq] at hf
    exact ⟨congrArg _ (congrArg _ hf.eq), .inr ⟨by simp, ho.parsers⟩⟩
  | lexical he hs => exact ⟨by rw [hL.lexical_eq he], .inl ⟨⟨_, rfl⟩, hs⟩⟩
  | excused he => exact absurd he hL.not_excused

theorem Exact.answers_eq (hL : L.Exact) (h : L.Parsers L.cursor p p') (calls : List Call) :
    p.answers calls = p'.answers calls := by
  induction calls generalizing p p' with
  | nil => rfl
  | cons c calls ih =>
    obtain ⟨heq, ⟨⟨e, he⟩, -⟩ | ⟨hne, hq⟩⟩ := hL.call h c
    · rw [Parser.answers_of_lexical he, Parser.answers_of_lexical (heq ▸ he)]
    · rw [Parser.answers_of_ne hne, Parser.answers_of_ne (heq ▸ hne), heq, ih hq]

end ArithLang.Lockstep
