import Mathlib.Data.List.TakeWhile
import ArithLang.Proofs.Lexeme.Reading

/-! How words are spelled. A word is read as far as its spelling goes. -/

namespace ArithLang

/-- An escape after its backslash, and the code point that it stands for. -/
inductive IsEscape : List Char → Nat → Prop
  | four : digits.length = 4 → (∀ c ∈ digits, isDigitOf 16 c = true) →
      IsEscape ('u' :: digits) (numberOf 16 digits)
  | braced : digits ≠ [] → (∀ c ∈ digits, isDigitOf 16 c = true) →
      numberOf 16 digits ≤ 0x10ffff →
      IsEscape ('u' :: '\x7b' :: digits ++ ['\x7d']) (numberOf 16 digits)

/-- A spelling, the characters it spells and whether one of them is escaped. Only the last part of a
word, after its first character, may be empty. -/
inductive IsSpelled : (first : Bool) → List Char → List Char → (escaped : Bool) → Prop
  | nil : IsSpelled false [] [] false
  | plain : mayStand first c = true → IsSpelled false cs word escaped →
      IsSpelled first (c :: cs) (c :: word) escaped
  | escape : IsEscape spelling code → charOf? code = some c → mayStand first c = true →
      IsSpelled false cs word escaped →
      IsSpelled first ('\\' :: spelling ++ cs) (c :: word) true

variable {cs rest : List Char} {code : Nat}

theorem takeWhile_stop {p : Char → Bool} {xs : List Char} {y : Char}
    (hx : ∀ x ∈ xs, p x = true) (hy : p y = false) (ys : List Char) :
    (xs ++ y :: ys).takeWhile p = xs ∧ (xs ++ y :: ys).dropWhile p = y :: ys := by
  rw [List.takeWhile_append_of_pos hx, List.dropWhile_append_of_pos hx,
    List.takeWhile_cons_of_neg (ne_true_of_eq_false hy),
    List.dropWhile_cons_of_neg (ne_true_of_eq_false hy), List.append_nil]
  exact ⟨rfl, rfl⟩

/-- An escape is read for what it is, whatever follows it. -/
theorem IsEscape.read {spelling : List Char} (h : IsEscape spelling code) (rest : List Char) :
    readEscape (spelling ++ rest) = ⟨spelling, rest, .ok code⟩ := by
  cases h with
  | @four digits hl hd =>
    have hne : ∀ cs, digits ++ rest ≠ '\x7b' :: cs := by
      intro cs h
      cases digits with
      | nil => cases hl
      | cons d ds =>
        have hd : isDigitOf 16 d = true := hd d List.mem_cons_self
        rw [(List.cons.inj h).1] at hd
        revert hd
        decide
    have ht : (digits ++ rest).take 4 = digits := by rw [← hl, List.take_left]
    have htw : digits.takeWhile (isDigitOf 16) = digits := List.takeWhile_eq_self_iff.mpr hd
    rw [List.cons_append, readEscape]
    · simp only [readFourDigits, ht, htw, hl, if_true]
      rw [← hl, List.drop_left]
    · exact hne
  | @braced digits hne hd hle =>
    obtain ⟨ht, hdr⟩ := takeWhile_stop hd (show isDigitOf 16 '\x7d' = false by decide) rest
    have hc : (digits ++ '\x7d' :: rest).contains '\x7d' = true := by simp
    simp only [List.cons_append, List.append_assoc, List.nil_append, readEscape, readBracedCode,
      hc, ht, hdr, if_true, true_and, ne_eq, hne, not_false_eq_true, if_neg (Nat.not_lt_of_le hle)]

/-- What is read as an escape is one. -/
theorem isEscape_of_read (h : (readEscape cs).code = .ok code) :
    IsEscape (readEscape cs).taken code := by
  unfold readEscape at h ⊢
  split at h
  · next cs =>
    unfold readBracedCode at h ⊢
    split at h
    · next hc =>
      dsimp only at h ⊢
      rw [if_pos hc]
      split at h
      · cases h
      · next c rest hd =>
        split at h
        · next hb =>
          obtain ⟨rfl, hne⟩ := hb
          simp only [if_pos hne, true_and]
          dsimp only at h
          split at h
          · cases h
          · next hle =>
            cases h
            exact .braced hne (List.all_eq_true.1 List.all_takeWhile) (Nat.le_of_not_lt hle)
        · cases h
    · cases h
  · next cs _ =>
    unfold readFourDigits at h ⊢
    dsimp only at h ⊢
    split at h
    · next hl =>
      cases h
      exact .four hl (List.all_eq_true.1 List.all_takeWhile)
    · cases h
  · cases h

theorem WordReading.cons_eq_ok {spelling word : List Char} {escaped : Bool} {c : Char}
    {after : WordReading} (h : (after.cons spelling escaped c).outcome = .ok word) :
    ∃ word', after.outcome = .ok word' ∧ c :: word' = word := by
  unfold cons at h
  dsimp only at h
  split at h
  · next word' hw => exact ⟨word', hw, Except.ok.inj h⟩
  · cases h

theorem not_isIdentifierChar_backslash : Text.isIdentifierChar '\\' = false := by decide +kernel

theorem mayStand_of_startsWord {first : Bool} {c : Char} (hc : Text.isIdentifierChar c = true)
    (hf : first = true → startsWord c = true) : mayStand first c = true := by
  unfold mayStand
  split
  · next h =>
    obtain hs | hs := Bool.or_eq_true_iff.1 (hf h)
    · exact hs
    · rw [eq_of_beq hs, not_isIdentifierChar_backslash] at hc
      cases hc
  · exact hc

theorem isIdentifierChar_of_mayStand {first : Bool} {c : Char} (h : mayStand first c = true) :
    Text.isIdentifierChar c = true := by
  unfold mayStand at h
  split at h
  · exact Text.isIdentifierChar_of_start h
  · exact h

/-- What is read as a word is one. -/
theorem isSpelled_of_read {first : Bool} {word : List Char}
    (hf : first = true → cs.head?.any startsWord = true)
    (h : (readSpelledWord first cs).outcome = .ok word) :
    IsSpelled first (readSpelledWord first cs).taken word
      (readSpelledWord first cs).escaped := by
  fun_induction readSpelledWord first cs generalizing word with
  | case1 first =>
    cases first with
    | true => cases hf rfl
    | false =>
      cases h
      exact .nil
  | case2 first c cs hc ih =>
    obtain ⟨word, hw, rfl⟩ := WordReading.cons_eq_ok h
    exact .plain (mayStand_of_startsWord hc hf) (ih (by simp) hw)
  | case3 => cases h
  | case4 => cases h
  | case5 first cs escape code hcode d hd _ =>
    rename_i ih
    obtain ⟨word, hw, rfl⟩ := WordReading.cons_eq_ok h
    obtain ⟨hchar, hstand⟩ := Option.filter_eq_some_iff.1 hd
    exact .escape (isEscape_of_read hcode) hchar hstand (ih (by simp) hw)
  | case6 first c cs hc hb =>
    cases first with
    | true =>
      obtain hs | hs := Bool.or_eq_true_iff.1 (hf rfl)
      · exact absurd (Text.isIdentifierChar_of_start hs) hc
      · exact absurd (eq_of_beq hs) hb
    | false =>
      cases h
      exact .nil

/-- A word is read as far as any spelling goes. -/
theorem IsSpelled.prefix_taken {first escaped : Bool} {text word word' : List Char}
    (ht : IsSpelled first text word escaped) (hp : text <+: cs)
    (h : (readSpelledWord first cs).outcome = .ok word') :
    text <+: (readSpelledWord first cs).taken := by
  fun_induction readSpelledWord first cs generalizing text word escaped word' with
  | case1 => exact hp
  | case2 first c cs hc ih =>
    obtain ⟨word', hw, rfl⟩ := WordReading.cons_eq_ok h
    cases ht with
    | nil => exact List.nil_prefix
    | plain _ ht =>
      obtain ⟨rfl, hp⟩ := List.cons_prefix_cons.1 hp
      exact List.cons_prefix_cons.2 ⟨rfl, ih ht (List.cons_prefix_cons.1 hp).2 hw⟩
    | escape =>
      obtain ⟨rfl, -⟩ := List.cons_prefix_cons.1 hp
      rw [not_isIdentifierChar_backslash] at hc
      cases hc
  | case3 => cases h
  | case4 => cases h
  | case5 first cs escape code hcode d hd _ =>
    rename_i ih
    obtain ⟨word', hw, rfl⟩ := WordReading.cons_eq_ok h
    cases ht with
    | nil => exact List.nil_prefix
    | plain hm =>
      obtain ⟨rfl, -⟩ := List.cons_prefix_cons.1 hp
      have := isIdentifierChar_of_mayStand hm
      rw [not_isIdentifierChar_backslash] at this
      cases this
    | @escape spelling _ _ _ us _ _ he _ _ ht =>
      obtain ⟨-, rest, hrest⟩ := List.cons_prefix_cons.1 hp
      have hread := he.read (us ++ rest)
      rw [← List.append_assoc] at hread
      have hread : escape = _ := (congrArg readEscape hrest.symm).trans hread
      have hpre := ih ht (by rw [hread]; exact List.prefix_append ..) hw
      rw [hread] at hpre ⊢
      exact List.cons_prefix_cons.2 ⟨rfl, (List.prefix_append_right_inj _).2 hpre⟩
  | case6 first c cs hc hb =>
    cases ht with
    | nil => exact List.nil_prefix
    | plain hm =>
      obtain ⟨rfl, -⟩ := List.cons_prefix_cons.1 hp
      exact absurd (isIdentifierChar_of_mayStand hm) hc
    | escape =>
      obtain ⟨rfl, -⟩ := List.cons_prefix_cons.1 hp
      exact absurd rfl hb

/-- Whether a fault leaves the scanner where it is, in front of what cannot be read. -/
def LexFault.isBarrier : LexFault → Bool
  | .unexpectedCharacter _ | .commentInModule => true
  | _ => false

theorem readEscape_fault {e : LexError} (h : (readEscape cs).code = .error e) :
    e.fault.isBarrier = false := by
  unfold readEscape at h
  split at h
  · unfold readBracedCode at h
    split at h
    · split at h
      · cases h
        rfl
      · dsimp only at h
        split at h
        · dsimp only at h
          split at h <;> cases h
          rfl
        · cases h
          rfl
    · cases h
      rfl
  · unfold readFourDigits at h
    dsimp only at h
    split at h <;> cases h
    rfl
  · cases h
    rfl

theorem WordReading.cons_eq_error {spelling : List Char} {escaped : Bool} {c : Char}
    {after : WordReading} {e : LexError}
    (h : (after.cons spelling escaped c).outcome = .error e) :
    ∃ e', after.outcome = .error e' ∧ e'.shift (Text.byteLength spelling) = e := by
  unfold cons at h
  dsimp only at h
  split at h
  · cases h
  · next e' he => exact ⟨e', he, Except.error.inj h⟩

theorem readSpelledWord_fault {first : Bool} {e : LexError}
    (h : (readSpelledWord first cs).outcome = .error e) : e.fault.isBarrier = false := by
  fun_induction readSpelledWord first cs generalizing e with
  | case1 => cases h
  | case2 first c cs _ ih =>
    obtain ⟨e', he, rfl⟩ := WordReading.cons_eq_error h
    exact show e'.fault.isBarrier = false from ih he
  | case3 first cs escape error herror =>
    cases h
    exact readEscape_fault herror
  | case4 =>
    cases h
    rfl
  | case5 =>
    rename_i ih
    obtain ⟨e', he, rfl⟩ := WordReading.cons_eq_error h
    exact show e'.fault.isBarrier = false from ih he
  | case6 => cases h

end ArithLang
