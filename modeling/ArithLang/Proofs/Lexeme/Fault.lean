import ArithLang.Proofs.Boundary
import ArithLang.Proofs.Lexeme.Number

/-!
Where a reading fails: at the head of the text, after a mark that has been recognized or after all that
was taken, but never within a character.
-/

namespace ArithLang

open Text (Boundary byteLength)

variable {cs : List Char} {e : LexError}

theorem readEscape_boundary (h : (readEscape cs).code = .error e) :
    Boundary ('\\' :: cs) e.offset := by
  unfold readEscape at h
  split at h
  · next cs =>
    have two : Boundary ('\\' :: 'u' :: '\x7b' :: cs) 2 := Text.boundary_append ['\\', 'u'] _
    have three : Boundary ('\\' :: 'u' :: '\x7b' :: cs) 3 :=
      Text.boundary_append ['\\', 'u', '\x7b'] cs
    unfold readBracedCode at h
    split at h
    · split at h
      · cases h
        exact three
      · dsimp only at h
        split at h
        · dsimp only at h
          split at h
          · cases h
            exact two
          · cases h
        · cases h
          exact three
    · cases h
      exact three
  · next cs _ =>
    unfold readFourDigits at h
    dsimp only at h
    split at h
    · cases h
    · cases h
      exact Text.boundary_append ['\\', 'u'] cs
  · cases h
    exact Text.boundary_append ['\\'] cs

theorem readSpelledWord_boundary {first : Bool} (h : (readSpelledWord first cs).outcome = .error e) :
    Boundary cs e.offset := by
  fun_induction readSpelledWord first cs generalizing e with
  | case1 | case6 => cases h
  | case2 first c cs _ ih =>
    obtain ⟨e', he, rfl⟩ := WordReading.cons_eq_error h
    rw [LexError.shift, Nat.add_comm]
    exact (ih he).after [c]
  | case3 first cs escape error herror =>
    cases h
    exact readEscape_boundary herror
  | case4 =>
    cases h
    exact Text.boundary_zero _
  | case5 first cs escape =>
    rename_i ih
    obtain ⟨e', he, rfl⟩ := WordReading.cons_eq_error h
    have := (ih he).after ('\\' :: escape.taken)
    rw [List.cons_append, readEscape_append] at this
    rw [LexError.shift, Nat.add_comm]
    exact this

theorem readWord_boundary (h : (readWord cs).outcome = .error e) : Boundary cs e.offset := by
  simp only [readWord] at h
  split at h
  · cases h
  · next he =>
    cases h
    exact readSpelledWord_boundary he

theorem integerOutcome_boundary {value : Nat} (h : integerOutcome value = .error e) :
    Boundary cs e.offset := by
  unfold integerOutcome at h
  split at h
  · cases h
    exact Text.boundary_zero cs
  · cases h

theorem NamesRadix.boundary {c : Char} {radix : Nat} (h : NamesRadix c radix) :
    Boundary ('0' :: c :: cs) 2 := by
  have := Text.boundary_append ['0', c] cs
  cases h <;> exact this

theorem readRadix_boundary {c : Char} {radix : Nat} (hr : NamesRadix c radix)
    (h : (readRadix radix ('0' :: c :: cs)).outcome = .error e) :
    Boundary ('0' :: c :: cs) e.offset := by
  have htaken := Text.boundary_of_append (readRadix_append radix ('0' :: c :: cs))
  simp only [readRadix] at h htaken
  split at h
  · cases h
    exact hr.boundary
  · split at h
    · cases h
      exact htaken
    · exact integerOutcome_boundary h

theorem readDecimal_boundary (h : (readDecimal cs).outcome = .error e) : Boundary cs e.offset := by
  have htaken := Text.boundary_of_append (readDecimal_append cs)
  simp only [readDecimal] at h htaken
  split at h
  · cases h
    exact Text.boundary_zero cs
  · split at h
    · cases h
      exact htaken
    · split at h
      · cases h
      · exact integerOutcome_boundary h

theorem readNumber_boundary (h : (readNumber cs).outcome = .error e) : Boundary cs e.offset := by
  obtain ⟨c, cs, radix, rfl, hr, heq⟩ | ⟨heq, -⟩ := readNumber_cases cs
  · exact readRadix_boundary hr (heq ▸ h)
  · exact readDecimal_boundary (heq ▸ h)

theorem readLexeme_boundary {options : Options} (h : (readLexeme options cs).outcome = .error e) :
    Boundary cs e.offset := by
  cases cs with
  | nil => cases h
  | cons c cs =>
    have hr := lexemeReading options c cs
    generalize readLexeme options (c :: cs) = r at h hr
    cases hr with
    | hidden | unexpected =>
      cases h
      exact Text.boundary_zero _
    | word => exact readWord_boundary h
    | number => exact readNumber_boundary h
    | symbol => cases h

end ArithLang
