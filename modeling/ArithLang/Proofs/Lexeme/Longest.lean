import ArithLang.Proofs.Lexeme.Number

/-! The texts that are lexemes, and the reading of a lexeme as the longest of them. -/

namespace ArithLang

/-- The text is a lexeme by itself: a word, a number or a symbol. -/
inductive IsLexeme (functionBind : Bool) : List Char → Lexeme → Prop
  | word : IsSpelled true text word escaped →
      IsLexeme functionBind text (wordKind (.ofList word) escaped, .text (.ofList word))
  | number : IsNumber text v → IsLexeme functionBind text (.num, .number v)
  | symbol {symbol : Symbol} : symbol ∈ Symbol.all → symbol.isAllowed functionBind = true →
      IsLexeme functionBind symbol.text.toList (symbol.kind, symbol.value)

variable {functionBind : Bool} {options : Options} {c : Char} {cs text : List Char} {l : Lexeme}

/-! Words, numbers and symbols begin differently. -/

theorem IsSpelled.head_eq {word : List Char} {escaped : Bool}
    (h : IsSpelled true (c :: cs) word escaped) : startsWord c = true := by
  cases h with
  | plain hc =>
    rw [startsWord, show Text.isIdentifierStart c = true from hc]
    rfl
  | escape => exact Bool.or_true _

theorem isDigit_of_isDigitOf (h : isDigitOf 10 c = true) : c.isDigit = true := by
  by_cases hd : c.isDigit = true
  · exact hd
  · unfold isDigitOf digitValue? at h
    simp only [if_neg hd] at h
    split at h
    · rw [if_neg (by omega)] at h
      cases h
    · split at h
      · rw [if_neg (by omega)] at h
        cases h
      · cases h

theorem not_isAlpha_of_isDigit (h : c.isDigit = true) : c.isAlpha = false := by
  have hle : c.toNat ≤ 57 := (Char.isDigit_iff_toNat.1 h).2
  rw [← Bool.not_eq_true]
  intro ha
  delta Char.isAlpha Char.isUpper Char.isLower at ha
  simp only [Bool.or_eq_true, Bool.and_eq_true, decide_eq_true_eq, UInt32.le_iff_toNat_le] at ha
  obtain ⟨ha, -⟩ | ⟨ha, -⟩ := ha
  · simp at ha
    omega
  · simp at ha
    omega

theorem not_startsWord_of_digit (h : isDigitOf 10 c = true) : startsWord c = false := by
  have hd := isDigit_of_isDigitOf h
  have hne {d : Char} (hn : d.isDigit = false) : (c == d) = false := by
    refine beq_false_of_ne ?_
    rintro rfl
    rw [hn] at hd
    cases hd
  have ha : Text.isAlphabetic c = false := by
    have hlt := Nat.lt_of_le_of_lt (Char.isDigit_iff_toNat.1 hd).2 (show 57 < 0x80 by decide)
    rw [Text.isAlphabetic, if_pos hlt]
    exact not_isAlpha_of_isDigit hd
  simp [startsWord, Text.isIdentifierStart, hne, ha]

theorem not_startsWord_of_startsNumber (h : startsNumber (c :: cs) = true) :
    startsWord c = false := by
  by_cases hc : c = '.'
  · subst hc
    decide
  · rw [startsNumber_cons hc] at h
    exact not_startsWord_of_digit h

namespace Symbol

theorem text_ne_nil : ∀ symbol ∈ all, symbol.text.toList ≠ [] := by decide

theorem not_startsWord :
    ∀ symbol ∈ all, (symbol.text.toList.head?.any startsWord) = false := by
  decide +kernel

theorem not_startsNumber : ∀ symbol ∈ all, startsNumber symbol.text.toList = false := by decide

/-- No symbol goes on with a digit. -/
theorem not_digit_tail :
    ∀ symbol ∈ all, (symbol.text.toList.tail.head?.any (isDigitOf 10)) = false := by
  decide

/-- The first character of a symbol is a symbol that is always allowed. -/
theorem exists_head : ∀ symbol ∈ all, ∃ first ∈ all, first.isAllowed false = true ∧
    first.text.toList = symbol.text.toList.take 1 := by
  decide +kernel

theorem isAllowed_of_false {symbol : Symbol} (h : symbol.isAllowed false = true) :
    symbol.isAllowed functionBind = true := by
  rw [isAllowed, Bool.or_false] at h
  rw [isAllowed, h, Bool.true_or]

theorem sorted : all.Pairwise fun a b => b.text.toList.length ≤ a.text.toList.length := by
  decide +kernel

theorem length_le_of_longest? {symbol other : Symbol} (h : longest? functionBind cs = some symbol)
    (hm : other ∈ all) (ha : other.isAllowed functionBind = true) (hp : other.text.toList <+: cs) :
    other.text.toList.length ≤ symbol.text.toList.length := by
  obtain ⟨-, before, after, hall, hbefore⟩ := List.find?_eq_some_iff_append.1 h
  have hs := sorted
  rw [hall, List.pairwise_append] at hs
  rw [hall, List.mem_append, List.mem_cons] at hm
  obtain hm | rfl | hm := hm
  · have := hbefore other hm
    rw [ha, List.isPrefixOf_iff_prefix.2 hp] at this
    cases this
  · exact Nat.le_refl _
  · exact (List.pairwise_cons.1 hs.2.1).1 other hm

/-- The only symbol that a number may begin with is its point. -/
theorem eq_point_of_startsNumber {symbol : Symbol} (hm : symbol ∈ all)
    (hp : symbol.text.toList <+: c :: cs) (hs : startsNumber (c :: cs) = true) :
    symbol.text.toList = [c] := by
  have hne := text_ne_nil symbol hm
  have hn := not_startsNumber symbol hm
  have htail := not_digit_tail symbol hm
  generalize symbol.text.toList = text at hp hne hn htail
  cases text with
  | nil => contradiction
  | cons d text =>
    obtain ⟨rfl, rest, rfl⟩ := List.cons_prefix_cons.1 hp
    by_cases hd : d = '.'
    · subst hd
      cases text with
      | nil => rfl
      | cons e text =>
        have he : isDigitOf 10 e = true := hs
        have htail : isDigitOf 10 e = false := htail
        rw [he] at htail
        cases htail
    · rw [startsNumber_cons hd] at hs hn
      rw [hs] at hn
      cases hn

end Symbol

theorem IsLexeme.ne_nil (h : IsLexeme functionBind text l) : text ≠ [] := by
  cases h with
  | word hw =>
    rintro rfl
    cases hw
  | number hn =>
    rintro rfl
    cases hn.startsNumber
  | symbol hm => exact Symbol.text_ne_nil _ hm

theorem IsLexeme.kind_ne_eof (h : IsLexeme functionBind text l) : l.1 ≠ .eof := by
  cases h with
  | @word _ word escaped =>
    change wordKind _ _ ≠ .eof
    unfold wordKind
    split
    · exact nofun
    · cases hk : Kind.keyword? (.ofList word) with
      | none => exact nofun
      | some k =>
        have : ∀ k ∈ Kind.words, k ≠ .eof := by decide
        exact this k (Kind.keyword?_mem hk).1
  | number => exact nofun
  | symbol hm =>
    have : ∀ symbol ∈ Symbol.all, symbol.kind ≠ .eof := by decide
    exact this _ hm

/-- What is read as a lexeme is one, unless the text is at its end. -/
theorem isLexeme_of_read (h : (readLexeme options cs).outcome = .ok l) :
    cs = [] ∧ l = (.eof, .none) ∨
      IsLexeme (options.hasPlugin .functionBind) (readLexeme options cs).taken l := by
  cases cs with
  | nil =>
    cases h
    exact .inl ⟨rfl, rfl⟩
  | cons c cs =>
    refine .inr ?_
    have hr := lexemeReading options c cs
    generalize readLexeme options (c :: cs) = r at h hr
    cases hr with
    | hidden | unexpected => cases h
    | word hw =>
      simp only [readWord] at h ⊢
      split at h
      · next word hword =>
        cases h
        exact .word (isSpelled_of_read (fun _ => hw) hword)
      · cases h
    | number _ hn =>
      obtain ⟨v, rfl, hv⟩ := isNumber_of_read hn h
      exact .number hv
    | symbol _ _ hs =>
      cases h
      obtain ⟨hm, ha, -⟩ := Symbol.mem_of_longest? hs
      exact .symbol hm ha

theorem not_hidden_of_read (h : (readLexeme options cs).outcome = .ok l) :
    ¬ "<!--".toList <+: cs := by
  intro hp
  have hhidden : opensHiddenComment cs = true := List.isPrefixOf_iff_prefix.2 hp
  cases cs with
  | nil => cases hhidden
  | cons c cs =>
    rw [readLexeme, if_pos hhidden] at h
    cases h

theorem IsLexeme.startsWord_or (h : IsLexeme functionBind (c :: text) l) :
    (∃ word escaped, IsSpelled true (c :: text) word escaped) ∧ startsWord c = true ∨
      startsWord c = false ∧ ((∃ v, IsNumber (c :: text) v) ∨
        ∃ symbol ∈ Symbol.all, symbol.isAllowed functionBind = true ∧
          symbol.text.toList = c :: text) := by
  generalize ht : c :: text = s at h
  cases h with
  | word hw =>
    subst ht
    exact .inl ⟨⟨_, _, hw⟩, hw.head_eq⟩
  | number hn =>
    subst ht
    exact .inr ⟨not_startsWord_of_startsNumber hn.startsNumber, .inl ⟨_, hn⟩⟩
  | symbol hm ha =>
    have hs := Symbol.not_startsWord _ hm
    rw [← ht] at hs
    exact .inr ⟨hs, .inr ⟨_, hm, ha, rfl⟩⟩

theorem head_prefix_of_startsNumber (h : startsNumber (c :: cs) = true) :
    [c] <+: (readNumber (c :: cs)).taken := by
  have hne := readNumber_taken_ne_nil h
  have happend := readNumber_append (c :: cs)
  cases ht : (readNumber (c :: cs)).taken with
  | nil => exact absurd ht hne
  | cons d ds =>
    rw [ht] at happend
    obtain ⟨rfl, -⟩ := List.cons.inj happend
    exact List.cons_prefix_cons.2 ⟨rfl, List.nil_prefix⟩

/-- A lexeme is read as far as any lexeme goes. -/
theorem IsLexeme.prefix_taken {l' : Lexeme}
    (ht : IsLexeme (options.hasPlugin .functionBind) text l') (hp : text <+: cs)
    (h : (readLexeme options cs).outcome = .ok l) : text <+: (readLexeme options cs).taken := by
  have hne := ht.ne_nil
  obtain ⟨rest, hrest⟩ := hp
  cases text with
  | nil => contradiction
  | cons c text =>
    subst hrest
    have hp : c :: text <+: c :: (text ++ rest) := List.prefix_append (c :: text) rest
    have hr := lexemeReading options c (text ++ rest)
    rw [List.cons_append] at h ⊢
    generalize readLexeme options (c :: (text ++ rest)) = r at h hr
    obtain ⟨⟨word, escaped, hword⟩, hw⟩ | ⟨hw, hother⟩ := ht.startsWord_or
    · cases hr with
      | hidden | unexpected => cases h
      | word =>
        simp only [readWord] at h ⊢
        split at h
        · next hread => exact hword.prefix_taken hp hread
        · cases h
      | number hw' | symbol hw' =>
        rw [hw] at hw'
        cases hw'
    · cases hr with
      | hidden | unexpected => cases h
      | word hw' =>
        rw [hw] at hw'
        cases hw'
      | number _ hn =>
        obtain ⟨v, hv⟩ | ⟨symbol, hm, -, hs⟩ := hother
        · exact hv.prefix_taken hp
        · have hpoint := Symbol.eq_point_of_startsNumber hm (hs ▸ hp) hn
          rw [← hs, hpoint]
          exact head_prefix_of_startsNumber hn
      | symbol _ hn hs =>
        obtain ⟨v, hv⟩ | ⟨other, hm, ha, ho⟩ := hother
        · rw [startsNumber_of_isPrefix hv.startsNumber hp] at hn
          cases hn
        · rw [← ho] at hp ⊢
          exact List.prefix_of_prefix_length_le hp (Symbol.mem_of_longest? hs).2.2
            (Symbol.length_le_of_longest? hs hm ha hp)

/-- A character that is not expected begins no lexeme at all. -/
theorem readLexeme_unexpected {ch : Char} {offset : Nat}
    (h : (readLexeme options cs).outcome = .error ⟨.unexpectedCharacter ch, offset⟩) :
    offset = 0 ∧ (∃ cs', cs = ch :: cs') ∧
      ∀ text l, ¬ IsLexeme (options.hasPlugin .functionBind) (ch :: text) l := by
  cases cs with
  | nil => cases h
  | cons c cs =>
    have hr := lexemeReading options c cs
    generalize readLexeme options (c :: cs) = r at h hr
    cases hr with
    | hidden | symbol => cases h
    | word =>
      simp only [readWord] at h
      split at h
      · cases h
      · next he =>
        cases h
        cases show true = false from readSpelledWord_fault he
    | number =>
      cases show true = false from readNumber_fault h
    | unexpected hw hn hs =>
      cases h
      refine ⟨rfl, ⟨cs, rfl⟩, fun text l hl => ?_⟩
      have hnone : ∀ symbol ∈ Symbol.all, symbol.isAllowed false = true →
          symbol.text.toList ≠ [ch] := by
        intro symbol hm ha ht
        have := List.find?_eq_none.1 hs symbol hm
        rw [Symbol.isAllowed_of_false ha, ht] at this
        simp at this
      obtain ⟨-, hw'⟩ | ⟨-, ⟨v, hv⟩ | ⟨symbol, hm, -, ht⟩⟩ := hl.startsWord_or
      · rw [hw] at hw'
        cases hw'
      · have hv := hv.startsNumber
        by_cases hc : ch = '.'
        · subst hc
          exact hnone ⟨".", .dot⟩ (by decide) (by decide) rfl
        · rw [startsNumber_cons hc] at hn hv
          rw [hn] at hv
          cases hv
      · obtain ⟨first, hfirst, ha, heq⟩ := Symbol.exists_head symbol hm
        rw [ht] at heq
        exact hnone first hfirst ha heq

end ArithLang
