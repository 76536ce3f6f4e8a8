import ArithLang.Lexeme
import ArithLang.Proofs.Token.Lexeme

/-!
What any reading of a lexeme does, whatever comes of it: it splits the text in two, a token that is
read is genuine, and it has taken something unless the text is at its end.
-/

namespace ArithLang

theorem readSpelledWord_append (first : Bool) (cs : List Char) :
    (readSpelledWord first cs).taken ++ (readSpelledWord first cs).rest = cs := by
  fun_induction readSpelledWord first cs with
  | case1 => rfl
  | case2 first c cs _ ih => exact congrArg (c :: ·) ih
  | case3 first cs _ escape => exact congrArg ('\\' :: ·) (readEscape_append cs)
  | case4 first cs _ escape => exact congrArg ('\\' :: ·) (readEscape_append cs)
  | case5 first cs _ escape _ _ _ _ ih =>
    simp only [WordReading.cons, List.append_assoc, ih, List.cons_append]
    exact congrArg ('\\' :: ·) (readEscape_append cs)
  | case6 => rfl

theorem readSpelledWord_taken_ne_nil {first : Bool} {c : Char} {cs : List Char}
    (h : startsWord c = true) : (readSpelledWord first (c :: cs)).taken ≠ [] := by
  rw [readSpelledWord]
  split
  · simp [WordReading.cons]
  · next hc =>
    have hs : ¬ Text.isIdentifierStart c = true := fun h => hc (Text.isIdentifierChar_of_start h)
    simp only [startsWord, hs, Bool.false_or, beq_iff_eq] at h
    rw [if_pos h]
    dsimp only
    split
    · simp
    · split <;> simp [WordReading.cons]

theorem readRadix_append (radix : Nat) (cs : List Char) :
    (readRadix radix cs).taken ++ (readRadix radix cs).rest = cs := by
  simp only [readRadix, List.append_assoc, List.takeWhile_append_dropWhile, List.take_append_drop]

theorem exponentMark_isPrefix (cs : List Char) : exponentMark cs <+: cs := by
  unfold exponentMark
  split
  · split
    · split <;> simp
    · simp
  · split <;> simp
  · simp

theorem pointMark_isPrefix (cs : List Char) :
    (if cs.head? = some '.' then ['.'] else []) <+: cs := by
  cases cs with
  | nil => simp
  | cons c cs => by_cases h : c = '.' <;> simp [h]

theorem takeWhileIf_isPrefix {p : Prop} [Decidable p] (f : Char → Bool) (cs : List Char) :
    (if p then [] else cs.takeWhile f) <+: cs := by
  split
  · exact List.nil_prefix
  · exact List.takeWhile_prefix f

/-- The parts of a decimal literal stand one after the other. -/
theorem DecimalParts.split_append (cs : List Char) :
    (split cs).taken ++ (split cs).rest = cs := by
  obtain ⟨cs₁, cs₂, cs₃, cs₄, h₁, h₂, h₃, h₄, h₅⟩ : ∃ cs₁ cs₂ cs₃ cs₄,
      (split cs).whole ++ cs₁ = cs ∧ (split cs).point ++ cs₂ = cs₁ ∧
      (split cs).fraction ++ cs₃ = cs₂ ∧ (split cs).mark ++ cs₄ = cs₃ ∧
      (split cs).power ++ (split cs).rest = cs₄ :=
    ⟨_, _, _, _, List.takeWhile_append_dropWhile,
      List.prefix_iff_eq_append.1 (pointMark_isPrefix _),
      List.prefix_iff_eq_append.1 (takeWhileIf_isPrefix _ _),
      List.prefix_iff_eq_append.1 (exponentMark_isPrefix _),
      List.prefix_iff_eq_append.1 (takeWhileIf_isPrefix _ _)⟩
  simp only [taken, List.append_assoc, h₅, h₄, h₃, h₂, h₁]

theorem readDecimal_append (cs : List Char) :
    (readDecimal cs).taken ++ (readDecimal cs).rest = cs :=
  DecimalParts.split_append cs

theorem readNumber_eq (cs : List Char) :
    (∃ radix, readNumber cs = readRadix radix cs) ∧ 2 ≤ cs.length ∨
      readNumber cs = readDecimal cs := by
  unfold readNumber
  split
  · split
    · exact .inl ⟨⟨16, rfl⟩, by simp⟩
    · split
      · exact .inl ⟨⟨2, rfl⟩, by simp⟩
      · exact .inr rfl
  · exact .inr rfl

theorem readNumber_append (cs : List Char) :
    (readNumber cs).taken ++ (readNumber cs).rest = cs := by
  obtain ⟨⟨radix, h⟩, _⟩ | h := readNumber_eq cs
  · rw [h]
    exact readRadix_append radix cs
  · rw [h]
    exact readDecimal_append cs

theorem readDecimal_taken_ne_nil {cs : List Char} (h : startsNumber cs = true) :
    (readDecimal cs).taken ≠ [] := by
  intro hn
  have hp : (DecimalParts.split cs).whole = [] ∧ (DecimalParts.split cs).point = [] := by
    have : (DecimalParts.split cs).taken = [] := hn
    simp only [DecimalParts.taken, List.append_eq_nil_iff] at this
    exact ⟨this.1.1.1.1, this.1.1.1.2⟩
  simp only [DecimalParts.split] at hp
  unfold startsNumber at h
  split at h
  · have : isDigitOf 10 '.' = false := by decide
    simp [this] at hp
  · simp [h] at hp
  · cases h

theorem readNumber_taken_ne_nil {cs : List Char} (h : startsNumber cs = true) :
    (readNumber cs).taken ≠ [] := by
  obtain ⟨⟨radix, hr⟩, hl⟩ | hd := readNumber_eq cs
  · rw [hr]
    intro hn
    have := (List.append_eq_nil_iff.1 hn).1
    rw [List.take_eq_nil_iff] at this
    obtain h | rfl := this
    · cases h
    · cases hl
  · rw [hd]
    exact readDecimal_taken_ne_nil h

theorem Symbol.mem_of_longest? {functionBind : Bool} {cs : List Char} {symbol : Symbol}
    (h : longest? functionBind cs = some symbol) :
    symbol ∈ all ∧ symbol.isAllowed functionBind = true ∧ symbol.text.toList <+: cs := by
  have hs := List.find?_some h
  simp only [Bool.and_eq_true, List.isPrefixOf_iff_prefix] at hs
  exact ⟨List.mem_of_find?_eq_some h, hs⟩

/-- How a lexeme is read, by what the text begins with. -/
inductive LexemeReading (options : Options) (c : Char) (cs : List Char) : Reading → Prop
  | hidden : opensHiddenComment (c :: cs) = true → LexemeReading options c cs
      { taken := [], rest := c :: cs, outcome := .error ⟨.commentInModule, 0⟩ }
  | word : startsWord c = true → LexemeReading options c cs (readWord (c :: cs))
  | number : startsWord c = false → startsNumber (c :: cs) = true →
      LexemeReading options c cs (readNumber (c :: cs))
  | symbol : startsWord c = false → startsNumber (c :: cs) = false →
      Symbol.longest? (options.hasPlugin .functionBind) (c :: cs) = some symbol →
      LexemeReading options c cs (symbol.read (c :: cs))
  | unexpected : startsWord c = false → startsNumber (c :: cs) = false →
      Symbol.longest? (options.hasPlugin .functionBind) (c :: cs) = none →
      LexemeReading options c cs
        { taken := [], rest := c :: cs, outcome := .error ⟨.unexpectedCharacter c, 0⟩ }

theorem lexemeReading (options : Options) (c : Char) (cs : List Char) :
    LexemeReading options c cs (readLexeme options (c :: cs)) := by
  rw [readLexeme]
  split
  · next h => exact .hidden h
  · split
    · next hw => exact .word hw
    · next hw =>
      have hw := eq_false_of_ne_true hw
      split
      · next hn => exact .number hw hn
      · next hn =>
        have hn := eq_false_of_ne_true hn
        split
        · next hs => exact .symbol hw hn hs
        · next hs => exact .unexpected hw hn hs

theorem readLexeme_append (options : Options) (cs : List Char) :
    (readLexeme options cs).taken ++ (readLexeme options cs).rest = cs := by
  cases cs with
  | nil => rfl
  | cons c cs =>
    have h := lexemeReading options c cs
    generalize readLexeme options (c :: cs) = r at h
    cases h with
    | hidden | unexpected => rfl
    | word => exact readSpelledWord_append true _
    | number => exact readNumber_append _
    | symbol _ _ hs => exact List.prefix_iff_eq_append.1 (Symbol.mem_of_longest? hs).2.2

theorem readLexeme_taken_ne_nil {options : Options} {cs : List Char} {l : Lexeme}
    (h : (readLexeme options cs).outcome = .ok l) (hl : l.1 ≠ .eof) :
    (readLexeme options cs).taken ≠ [] := by
  cases cs with
  | nil =>
    cases h
    contradiction
  | cons c cs =>
    have hr := lexemeReading options c cs
    generalize readLexeme options (c :: cs) = r at h hr
    cases hr with
    | hidden | unexpected => cases h
    | word hw => exact readSpelledWord_taken_ne_nil hw
    | number _ hn => exact readNumber_taken_ne_nil hn
    | symbol _ _ hs =>
      have : ∀ symbol ∈ Symbol.all, symbol.text.toList ≠ [] := by decide
      exact this _ (Symbol.mem_of_longest? hs).1

theorem wordKind_genuine (word : String) (escaped : Bool) :
    Lexeme.Genuine (wordKind word escaped, .text word) := by
  unfold wordKind
  split
  · exact .name
  · cases h : Kind.keyword? word with
    | none => exact .name
    | some k => exact .keyword h

theorem readWord_genuine {cs : List Char} {l : Lexeme} (h : (readWord cs).outcome = .ok l) :
    l.Genuine := by
  simp only [readWord] at h
  split at h
  · cases h
    exact wordKind_genuine _ _
  · cases h

theorem integerOutcome_eq_ok {value : Nat} {l : Lexeme} :
    integerOutcome value = .ok l ↔
      value ≤ maxInt64 ∧ (.num, .number (.int (.ofNat value))) = l := by
  unfold integerOutcome
  split
  · next h => simp [Nat.not_le_of_lt h]
  · next h => simp [Nat.le_of_not_lt h]

theorem readRadix_genuine {radix : Nat} {cs : List Char} {l : Lexeme}
    (h : (readRadix radix cs).outcome = .ok l) : l.Genuine := by
  simp only [readRadix] at h
  split at h
  · cases h
  · split at h
    · cases h
    · obtain ⟨-, rfl⟩ := integerOutcome_eq_ok.1 h
      exact .number

theorem readDecimal_genuine {cs : List Char} {l : Lexeme}
    (h : (readDecimal cs).outcome = .ok l) : l.Genuine := by
  simp only [readDecimal] at h
  split at h
  · cases h
  · split at h
    · cases h
    · split at h
      · cases h
        exact .number
      · obtain ⟨-, rfl⟩ := integerOutcome_eq_ok.1 h
        exact .number

theorem readNumber_genuine {cs : List Char} {l : Lexeme} (h : (readNumber cs).outcome = .ok l) :
    l.Genuine := by
  obtain ⟨⟨radix, hr⟩, -⟩ | hd := readNumber_eq cs
  · exact readRadix_genuine (hr ▸ h)
  · exact readDecimal_genuine (hd ▸ h)

theorem readLexeme_genuine {options : Options} {cs : List Char} {l : Lexeme}
    (h : (readLexeme options cs).outcome = .ok l) : l.Genuine := by
  cases cs with
  | nil =>
    cases h
    exact .eof
  | cons c cs =>
    have hr := lexemeReading options c cs
    generalize readLexeme options (c :: cs) = r at h hr
    cases hr with
    | hidden | unexpected => cases h
    | word => exact readWord_genuine h
    | number => exact readNumber_genuine h
    | symbol _ _ hs =>
      cases h
      exact .symbol (Symbol.mem_of_longest? hs).1

end ArithLang
