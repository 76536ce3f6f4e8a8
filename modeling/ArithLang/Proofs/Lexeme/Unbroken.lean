import ArithLang.Proofs.Lexeme.Reading

/-! No reading passes a line break, whatever comes of it. -/

namespace ArithLang

open Text (isLineBreak containsLineBreak containsLineBreak_append)

variable {c : Char} {cs : List Char}

theorem Text.isLineBreak_iff : isLineBreak c = true ↔
    c = '\n' ∨ c = '\r' ∨ c = '\u2028' ∨ c = '\u2029' := by
  simp [isLineBreak, or_assoc]

/-- A text of characters of a class that no line break belongs to. -/
theorem Text.unbroken_of_forall {p : Char → Bool} (hp : ∀ c, isLineBreak c = true → p c = false)
    (h : ∀ c ∈ cs, p c = true) : containsLineBreak cs = false := by
  rw [containsLineBreak, List.any_eq_false]
  intro c hc hb
  have := h c hc
  rw [hp c hb] at this
  cases this

theorem not_isIdentifierChar_of_break (c : Char) (h : isLineBreak c = true) :
    Text.isIdentifierChar c = false := by
  obtain rfl | rfl | rfl | rfl := Text.isLineBreak_iff.1 h <;> decide +kernel

theorem not_isDigitOf_of_break (radix : Nat) (c : Char) (h : isLineBreak c = true) :
    isDigitOf radix c = false := by
  -- The value of a break is that of no digit, in any radix.
  obtain rfl | rfl | rfl | rfl := Text.isLineBreak_iff.1 h <;>
    exact congrArg Option.isSome (if_neg fun h => Nat.lt_irrefl 16 h.2)

theorem digits_unbroken (radix : Nat) (cs : List Char) :
    containsLineBreak (cs.takeWhile (isDigitOf radix)) = false :=
  Text.unbroken_of_forall (not_isDigitOf_of_break radix) (List.all_eq_true.1 List.all_takeWhile)

theorem readEscape_unbroken (cs : List Char) : containsLineBreak (readEscape cs).taken = false := by
  unfold readEscape
  split
  · next cs =>
    have hd := digits_unbroken 16 cs
    unfold readBracedCode
    split
    · split
      · exact hd
      · dsimp only
        split
        · next hc =>
          obtain ⟨rfl, -⟩ := hc
          rw [containsLineBreak_append]
          exact Bool.or_eq_false_iff.2 ⟨hd, rfl⟩
        · exact hd
    · rfl
  · exact digits_unbroken 16 _
  · rfl

theorem readSpelledWord_unbroken (first : Bool) (cs : List Char) :
    containsLineBreak (readSpelledWord first cs).taken = false := by
  fun_induction readSpelledWord first cs with
  | case1 | case6 => rfl
  | case2 first c cs hc ih =>
    have hb : isLineBreak c = false := by
      rw [← Bool.not_eq_true]
      intro hb
      rw [not_isIdentifierChar_of_break c hb] at hc
      cases hc
    exact Bool.or_eq_false_iff.2 ⟨hb, ih⟩
  | case3 first cs _ escape | case4 first cs _ escape => exact readEscape_unbroken cs
  | case5 first cs _ escape _ _ _ _ ih =>
    rw [WordReading.cons, containsLineBreak_append]
    exact Bool.or_eq_false_iff.2 ⟨readEscape_unbroken cs, ih⟩

theorem exponentMark_unbroken (cs : List Char) : containsLineBreak (exponentMark cs) = false := by
  unfold exponentMark
  split
  · split
    · next he =>
      split
      · next hs => obtain rfl | rfl := he <;> obtain rfl | rfl := hs <;> rfl
      · obtain rfl | rfl := he <;> rfl
    · rfl
  · split
    · next he => obtain rfl | rfl := he <;> rfl
    · rfl
  · rfl

theorem readRadix_unbroken {c : Char} (radix : Nat) (hc : isLineBreak c = false) (cs : List Char) :
    containsLineBreak (readRadix radix ('0' :: c :: cs)).taken = false := by
  rw [readRadix, containsLineBreak_append]
  refine Bool.or_eq_false_iff.2 ⟨?_, digits_unbroken radix _⟩
  simp [containsLineBreak, hc]
  rfl

theorem readDecimal_unbroken (cs : List Char) : containsLineBreak (readDecimal cs).taken = false := by
  have ifDigits {p : Prop} [Decidable p] (cs : List Char) :
      containsLineBreak (if p then [] else cs.takeWhile (isDigitOf 10)) = false := by
    split
    · rfl
    · exact digits_unbroken 10 cs
  have point {p : Prop} [Decidable p] : containsLineBreak (if p then ['.'] else []) = false := by
    split <;> rfl
  simp only [readDecimal, DecimalParts.taken, DecimalParts.split, containsLineBreak_append, ifDigits,
    point, digits_unbroken, exponentMark_unbroken, Bool.or_false]

theorem readNumber_unbroken (cs : List Char) : containsLineBreak (readNumber cs).taken = false := by
  unfold readNumber
  split
  · split
    · next hc => exact readRadix_unbroken 16 (by obtain rfl | rfl := hc <;> rfl) _
    · split
      · next hc => exact readRadix_unbroken 2 (by obtain rfl | rfl := hc <;> rfl) _
      · exact readDecimal_unbroken _
  · exact readDecimal_unbroken cs

theorem Symbol.text_unbroken : ∀ symbol ∈ all, containsLineBreak symbol.text.toList = false := by
  decide

theorem readLexeme_unbroken (options : Options) (cs : List Char) :
    containsLineBreak (readLexeme options cs).taken = false := by
  cases cs with
  | nil => rfl
  | cons c cs =>
    have hr := lexemeReading options c cs
    generalize readLexeme options (c :: cs) = r at hr
    cases hr with
    | hidden | unexpected => rfl
    | word => exact readSpelledWord_unbroken true _
    | number => exact readNumber_unbroken _
    | symbol _ _ hs => exact Symbol.text_unbroken _ (Symbol.mem_of_longest? hs).1

end ArithLang
