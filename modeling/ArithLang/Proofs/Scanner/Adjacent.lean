import ArithLang.Proofs.Cursor.Standing

/-!
Two tokens, one directly after the other. A number is not followed by a character that a name could
begin with; but a word may begin with an escape instead, and then it may follow a number directly.
-/

namespace ArithLang

/-- Whether tokens of a kind are words: names and keywords. -/
def Kind.isWord (kind : Kind) : Bool := kind == .name || words.contains kind

variable {options : Options} {cs : List Char} {l : Lexeme}

theorem not_startsName_of_readRadix {radix : Nat} (h : (readRadix radix cs).outcome = .ok l) :
    startsName (readRadix radix cs).rest = false := by
  simp only [readRadix] at h ⊢
  split at h
  · cases h
  · split at h
    · cases h
    · next hs => exact eq_false_of_ne_true hs

theorem not_startsName_of_readDecimal (h : (readDecimal cs).outcome = .ok l) :
    startsName (readDecimal cs).rest = false := by
  simp only [readDecimal] at h ⊢
  split at h
  · cases h
  · split at h
    · cases h
    · next hs => exact eq_false_of_ne_true hs

theorem not_startsName_of_readNumber (h : (readNumber cs).outcome = .ok l) :
    startsName (readNumber cs).rest = false := by
  obtain ⟨⟨radix, hr⟩, -⟩ | hd := readNumber_eq cs
  · rw [hr] at h ⊢
    exact not_startsName_of_readRadix h
  · rw [hd] at h ⊢
    exact not_startsName_of_readDecimal h

theorem isWord_wordKind (word : String) (escaped : Bool) : (wordKind word escaped).isWord = true := by
  unfold wordKind
  split
  · rfl
  · cases h : Kind.keyword? word with
    | none => rfl
    | some k =>
      have : ∀ k ∈ Kind.words, k.isWord = true := by decide
      exact this k (Kind.keyword?_mem h).1

/-- The kind of a lexeme tells what the text begins with. -/
theorem readLexeme_isWord (h : (readLexeme options cs).outcome = .ok l) :
    l.1.isWord = cs.head?.any startsWord := by
  cases cs with
  | nil =>
    cases h
    rfl
  | cons c cs =>
    have hr := lexemeReading options c cs
    generalize readLexeme options (c :: cs) = r at h hr
    rw [List.head?_cons, Option.any_some]
    cases hr with
    | hidden | unexpected => cases h
    | word hw =>
      simp only [readWord] at h
      split at h
      · cases h
        rw [hw]
        exact isWord_wordKind _ _
      · cases h
    | number hw hn =>
      obtain ⟨v, rfl, -⟩ := isNumber_of_read hn h
      exact hw.symm
    | symbol hw _ hs =>
      cases h
      have : ∀ symbol ∈ Symbol.all, symbol.kind.isWord = false := by decide
      rw [hw]
      exact this _ (Symbol.mem_of_longest? hs).1

theorem not_startsName_of_num (h : (readLexeme options cs).outcome = .ok l) (hk : l.1 = .num) :
    startsName (readLexeme options cs).rest = false := by
  have hword := readLexeme_isWord h
  rw [hk] at hword
  cases cs with
  | nil => rfl
  | cons c cs =>
    have hr := lexemeReading options c cs
    generalize readLexeme options (c :: cs) = r at h hr ⊢
    cases hr with
    | hidden | unexpected => cases h
    | word hw => cases hword.trans hw
    | number => exact not_startsName_of_readNumber h
    | symbol _ _ hs =>
      cases h
      have : ∀ symbol ∈ Symbol.all, symbol.kind ≠ .num := by decide
      exact absurd hk (this _ (Symbol.mem_of_longest? hs).1)

namespace ScanState

variable {s s₁ s₂ : ScanState} {input : List Char} {t u : Token}

/-- The text from the start of a found token on is what is read for it. -/
theorem Finds.from?_start (h : s.Finds options t s₁) (hl : s.Located input) :
    Text.from? input t.start.offset = some (s.gap options).rest := by
  obtain ⟨passed, hp⟩ := hl.passed
  have happend := hp.append_eq options
  rw [List.append_assoc, s.reading_append] at happend
  rw [h.start_eq, ← happend]
  change Text.from? _ (s.startPlace options).offset = _
  rw [(hp.startPlace options).offset_eq]
  exact Text.from?_append _ _

/-- A token that starts where the one before it stopped comes after no gap. -/
theorem Finds.gap_rest (h : s.Finds options t s₁) (h' : s₁.Finds options u s₂)
    (hle : u.start.offset ≤ t.stop.offset) : (s₁.gap options).rest = (s.reading options).rest := by
  have hstart : u.start.offset = t.stop.offset + Text.byteLength (s₁.gap options).taken := by
    rw [h'.start_eq, ← h.place_offset]
    exact Place.offset_pass _ _
  have hgap := s₁.gap_append options
  cases ht : (s₁.gap options).taken with
  | nil =>
    rw [ht, List.nil_append, h.rest_eq] at hgap
    exact hgap
  | cons c cs =>
    have := Text.byteLength_pos (List.cons_ne_nil c cs)
    rw [ht] at hstart
    omega

/-- A word directly after a number begins with a backslash. -/
theorem Finds.word_after_number (h : s.Finds options t s₁) (hl : s.Located input)
    (h' : s₁.Finds options u s₂) (ht : t.kind = .num) (hu : u.kind.isWord = true) :
    t.stop.offset < u.start.offset ∨
      ∃ cs, Text.from? input u.start.offset = some ('\\' :: cs) := by
  obtain hlt | hle := Nat.lt_or_ge t.stop.offset u.start.offset
  · exact .inl hlt
  · have hrest := h.gap_rest h' hle
    have hnot := not_startsName_of_num h.outcome_eq ht
    have hword : (s₁.gap options).rest.head?.any startsWord = true :=
      (readLexeme_isWord h'.outcome_eq).symm.trans hu
    have hfrom := h'.from?_start (hl.finds h)
    change startsName (s.reading options).rest = false at hnot
    rw [← hrest] at hnot
    cases hr : (s₁.gap options).rest with
    | nil =>
      rw [hr] at hword
      cases hword
    | cons c cs =>
      rw [hr] at hword hnot hfrom
      have hstart : Text.isIdentifierStart c = false := hnot
      have hc : (Text.isIdentifierStart c || c == '\\') = true := hword
      rw [hstart, Bool.false_or] at hc
      rw [eq_of_beq hc] at hfrom
      exact .inr ⟨cs, hfrom⟩

end ScanState

namespace Scanner

variable {s : Scanner} {input : List Char} {ts pre post : List Token} {t u : Token}
  {rs : List (Except LexError Token)}

theorem gather_eq_ok : gather rs = .ok ts ↔ rs = ts.map .ok := by
  constructor
  · intro h
    induction rs generalizing ts with
    | nil =>
      cases h
      rfl
    | cons r rs ih =>
      cases r with
      | error e => cases h
      | ok t =>
        rw [gather] at h
        cases hg : gather rs with
        | error e =>
          rw [hg] at h
          cases h
        | ok us =>
          rw [hg] at h
          cases h
          rw [ih hg]
          rfl
  · rintro rfl
    have := gather_append ts []
    rw [List.append_nil] at this
    rw [this, gather]
    exact congrArg Except.ok (List.append_nil ts)

/-- Somewhere along its stream a scanner finds each of the tokens. -/
theorem Yields.exists_next (h : s.Yields ((pre ++ t :: post).map .ok)) (hl : s.state.Located input) :
    ∃ s₀ s₁ : Scanner, s₀.state.Located input ∧ s₀.options = s.options ∧ s₀.next = (.ok t, s₁) ∧
      Yields { s₁ with ended := isLast (.ok t) } (post.map .ok) := by
  induction pre generalizing s with
  | nil =>
    cases h with
    | more hn h =>
      obtain ⟨-, d, hd, rfl⟩ := next?_eq_some hn
      exact ⟨s, d, hl, rfl, hd, h⟩
  | cons _ pre ih =>
    cases h with
    | more hn h =>
      obtain ⟨-, d, hd, rfl⟩ := next?_eq_some hn
      obtain ⟨hn, hd⟩ := next_eq hd
      obtain ⟨s₀, s₁, hl, hoptions, hs⟩ := ih h (hl.next hn)
      rw [hd] at hoptions
      exact ⟨s₀, s₁, hl, hoptions, hs⟩

theorem Yields.exists_finds (h : s.Yields ((pre ++ t :: u :: post).map .ok))
    (hl : s.state.Located input) : ∃ s₀ s₁ s₂ : ScanState, s₀.Located input ∧
      s₀.Finds s.options t s₁ ∧ s₁.Finds s.options u s₂ := by
  obtain ⟨s₀, s₁, hl, hoptions, hn, h⟩ := h.exists_next hl
  obtain ⟨hn, hs₁⟩ := next_eq hn
  cases h with
  | more hn' =>
    obtain ⟨-, d, hd, -⟩ := next?_eq_some hn'
    have hn' := (next_eq hd).1
    rw [hs₁] at hn'
    rw [← hoptions]
    exact ⟨_, _, _, hl, ScanState.finds_of_next hn, ScanState.finds_of_next hn'⟩

end Scanner

/-- A word after a number comes after a gap, unless it begins with an escape. -/
theorem word_after_number_apart {input : List Char} {options : Options} {pre post : List Token}
    {t u : Token} (h : tokenize input options = .ok (pre ++ t :: u :: post)) (ht : t.kind = .num)
    (hu : u.kind.isWord = true) : t.stop.offset < u.start.offset ∨
      t.stop.offset = u.start.offset ∧
        ∃ cs, Text.from? input u.start.offset = some ('\\' :: cs) := by
  obtain ⟨rs, hy, -⟩ := Scanner.exists_yields (Scanner.start input options) rfl
  rw [Scanner.tokenize_eq hy, Scanner.gather_eq_ok] at h
  subst h
  obtain ⟨s₀, s₁, s₂, hl, hf, hf'⟩ := hy.exists_finds (ScanState.located_start input)
  have hle : t.stop.offset ≤ u.start.offset := hf.place_offset ▸ hf'.start_le
  obtain hlt | hslash := hf.word_after_number hl hf' ht hu
  · exact .inl hlt
  · obtain hlt | heq := Nat.lt_or_eq_of_le hle
    · exact .inl hlt
    · exact .inr ⟨heq, hslash⟩

/-- The tokens of a number and a name spelled with an escape, in one go. -/
theorem tokenize_escaped_neighbour : tokenize "1\\u0061".toList {} = .ok
    [{ kind := .num, value := .number (.int 1), start := ⟨0, 1, 0⟩, stop := ⟨1, 1, 1⟩ },
      { kind := .name, value := .text "a", start := ⟨1, 1, 1⟩, stop := ⟨7, 1, 7⟩ },
      { start := ⟨7, 1, 7⟩, stop := ⟨7, 1, 7⟩ }] := by
  have h : (tokenize "1\\u0061".toList {}).toOption = some
      [{ kind := .num, value := .number (.int 1), start := ⟨0, 1, 0⟩, stop := ⟨1, 1, 1⟩ },
        { kind := .name, value := .text "a", start := ⟨1, 1, 1⟩, stop := ⟨7, 1, 7⟩ },
        { start := ⟨7, 1, 7⟩, stop := ⟨7, 1, 7⟩ }] := by
    decide +kernel
  cases ht : tokenize "1\\u0061".toList {} with
  | error =>
    rw [ht] at h
    cases h
  | ok ts =>
    rw [ht] at h
    exact congrArg Except.ok (Option.some.inj h)

theorem word_after_number_escaped : ∃ t u last : Token,
    tokenize "1\\u0061".toList {} = .ok [t, u, last] ∧ t.kind = .num ∧ u.kind.isWord = true ∧
      (t.stop.offset < u.start.offset ∨ t.stop.offset = u.start.offset ∧
        ∃ cs, Text.from? "1\\u0061".toList u.start.offset = some ('\\' :: cs)) := by
  have h := tokenize_escaped_neighbour
  exact ⟨_, _, _, h, rfl, rfl, @word_after_number_apart _ _ [] [_] _ _ h rfl rfl⟩

/-- So a gap is not all that can keep a word from a number. -/
theorem word_touches_number : ¬ ∀ (input : List Char) (options : Options) (pre post : List Token)
    (t u : Token), tokenize input options = .ok (pre ++ t :: u :: post) → t.kind = .num →
      u.kind.isWord = true → t.stop.offset < u.start.offset := by
  intro h
  have hlt := h _ _ [] [_] _ _ tokenize_escaped_neighbour rfl rfl
  exact Nat.lt_irrefl 1 hlt

end ArithLang
