import ArithLang.Proofs.Lexeme.Literal
import ArithLang.Proofs.Scanner.Words

/-!
Number literals in a text. Where a number begins, a scan finds the value of the longest literal there, or
the first thing that is wrong with it.
-/

namespace ArithLang

variable {cs text rest : List Char} {literal : Literal} {e : LexError} {l : Lexeme}
  {options : Options} {input : List Char} {t : Token}

theorem readLexeme_eq_number (h : startsNumber cs = true) : readLexeme options cs = readNumber cs := by
  cases cs with
  | nil => cases h
  | cons c cs =>
    refine readLexeme_of_number (eq_false_of_ne_true fun hh => ?_) (not_startsWord_of_startsNumber h) h
    obtain ⟨rfl, -⟩ := List.cons_prefix_cons.1 (List.isPrefixOf_iff_prefix.1 hh)
    rw [startsNumber_cons (by decide)] at h
    cases h

namespace ScanState

variable {s s' : ScanState} (h : BeginsLiteral (s.gap options).rest text literal rest)

include h

theorem reads_of_literal : literal.Reads text rest (s.reading options).outcome := by
  rw [reading, readLexeme_eq_number h.startsNumber]
  exact h.reads

theorem taken_of_literal : (s.reading options).taken = text := by
  rw [reading, readLexeme_eq_number h.startsNumber]
  exact h.taken_eq

/-- A scan fails by what is wrong with the literal. -/
theorem reads_error_iff : literal.Reads text rest (.error e) ↔
    (s.next options).1 = .error (e.shift (s.startPlace options).offset) := by
  rw [next_eq_error_iff]
  exact ⟨(reads_of_literal h).unique, fun ho => ho ▸ reads_of_literal h⟩

/-- A scan finds the value of the literal, and its text. -/
theorem reads_ok_iff (hl : s.Located input) : literal.Reads text rest (.ok l) ↔
    ∃ t, (s.next options).1 = .ok t ∧ t.lexeme = l ∧
      t.start.offset = (s.startPlace options).offset ∧
        Text.slice? input t.start.offset t.stop.offset = some text := by
  constructor
  · intro hr
    have hout := (reads_of_literal h).unique hr
    obtain ⟨s', hn⟩ := next_of_outcome hout
    have hf := finds_of_next hn
    have hlexeme := Except.ok.inj (hf.outcome_eq.symm.trans hout)
    exact ⟨_, congrArg Prod.fst hn, hlexeme, rfl, taken_of_literal h ▸ hf.slice?_eq hl⟩
  · rintro ⟨t, ht, rfl, -⟩
    have hf := finds_of_next (show s.next options = (.ok t, (s.next options).2) by rw [← ht])
    exact hf.outcome_eq ▸ reads_of_literal h

end ScanState

namespace Scanner

end Scanner

end ArithLang
