import ArithLang.Cursor.Stream
import ArithLang.Proofs.Cursor.Passes
import ArithLang.Proofs.Scanner.Step

/-! The cursor over a text is lawful: every move scans, and scanning uses up the text. -/

namespace ArithLang

namespace TokenStream

variable {input : List Char} {options : Options} {s s' : TokenStream} {e : LexError}

theorem open?_eq_ok (h : open? input options = .ok s) :
    (Scanner.start input options).next = (.ok s.current, s.scanner) := by
  unfold open? at h
  split at h
  · next hn =>
    cases h
    exact hn
  · cases h

/-- A text that opens and has a property of its stream. -/
theorem exists_of_any {f : TokenStream → Bool} (h : (open? input options).toOption.any f = true) :
    ∃ s, open? input options = .ok s ∧ f s = true := by
  cases ho : open? input options with
  | error =>
    rw [ho] at h
    cases h
  | ok s =>
    rw [ho] at h
    exact ⟨s, rfl, h⟩

theorem advance_eq_ok :
    s.advance = (.ok (), s') ↔ s.scanner.next = (.ok s'.current, s'.scanner) := by
  unfold advance
  constructor
  · intro h
    split at h
    · next hn =>
      cases h
      exact hn
    · cases h
  · intro h
    rw [h]

theorem advance_eq_error :
    s.advance = (.error e, s') ↔
      s.scanner.next = (.error e, s'.scanner) ∧ s'.current = s.current := by
  unfold advance
  constructor
  · intro h
    split at h
    · cases h
    · next hn =>
      cases h
      exact ⟨hn, rfl⟩
  · rintro ⟨h, hc⟩
    rw [h]
    cases s'
    cases hc
    rfl

end TokenStream

open TokenStream

instance : LawfulCursor TokenStream where
  Valid s := s.current.lexeme.Genuine
  valid_advance {s s' r} hv h := by
    cases r with
    | ok =>
      have := (Scanner.next_eq (advance_eq_ok.1 h)).1
      exact (ScanState.finds_of_next this).genuine
    | error e => exact (advance_eq_error.1 h).2 ▸ hv
  genuine hv := hv
  remaining_pos _ := Nat.succ_pos _
  remaining_lt {s s'} _ _ h hk := by
    have := (Scanner.next_eq (advance_eq_ok.1 h)).1
    exact Nat.succ_lt_succ ((ScanState.finds_of_next this).length_lt hk)

theorem TokenStream.valid_of_open? {input : List Char} {options : Options} {s : TokenStream}
    (h : open? input options = .ok s) : LawfulCursor.Valid s :=
  (ScanState.finds_of_next (Scanner.next_eq (open?_eq_ok h)).1).genuine

end ArithLang
