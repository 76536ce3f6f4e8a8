import ArithLang.Proofs.Lexeme.Word

/-! How numbers are written. A number literal is read as far as any number goes. -/

namespace ArithLang

namespace DecimalParts

/-- The parts of a decimal literal: there is a digit before or after the point, and an exponent mark
comes with digits of its own. -/
structure WellFormed (parts : DecimalParts) : Prop where
  whole : ∀ c ∈ parts.whole, isDigitOf 10 c = true
  point : parts.point = [] ∧ parts.fraction = [] ∨ parts.point = ['.']
  fraction : ∀ c ∈ parts.fraction, isDigitOf 10 c = true
  digits : parts.whole ≠ [] ∨ parts.fraction ≠ []
  mark : parts.mark = [] ∧ parts.power = [] ∨ ∃ e, (e = 'e' ∨ e = 'E') ∧
    (parts.mark = [e] ∨ parts.mark = [e, '+'] ∨ parts.mark = [e, '-']) ∧ parts.power ≠ []
  power : ∀ c ∈ parts.power, isDigitOf 10 c = true

/-- The parts of what is read as a decimal literal: its exponent mark may lack digits. -/
structure Shaped (parts : DecimalParts) : Prop where
  whole : ∀ c ∈ parts.whole, isDigitOf 10 c = true
  point : parts.point = [] ∧ parts.fraction = [] ∨ parts.point = ['.']
  fraction : ∀ c ∈ parts.fraction, isDigitOf 10 c = true
  digits : parts.whole ≠ [] ∨ parts.fraction ≠ []
  mark : parts.mark = [] ∧ parts.power = [] ∨ ∃ e, (e = 'e' ∨ e = 'E') ∧
    (parts.mark = [e] ∨ parts.mark = [e, '+'] ∨ parts.mark = [e, '-'])
  power : ∀ c ∈ parts.power, isDigitOf 10 c = true

end DecimalParts

/-- The characters that name a radix after a zero. -/
inductive NamesRadix : Char → Nat → Prop
  | x : NamesRadix 'x' 16
  | X : NamesRadix 'X' 16
  | b : NamesRadix 'b' 2
  | B : NamesRadix 'B' 2

/-- A number as it is written, in a radix that it names or in decimal parts. -/
inductive Literal
  | radix : (radix : Nat) → (digits : List Char) → Literal
  | decimal : DecimalParts → Literal

/-- How literals are written. The digits after what names a radix and after an exponent mark may be
missing. -/
inductive IsLiteral : List Char → Literal → Prop
  | radix : NamesRadix mark radix → (∀ c ∈ digits, isDigitOf radix c = true) →
      IsLiteral ('0' :: mark :: digits) (.radix radix digits)
  | decimal {parts : DecimalParts} : parts.Shaped → parts.rest = [] →
      IsLiteral parts.taken (.decimal parts)

inductive IsNumber : List Char → Number → Prop
  | radix : NamesRadix mark radix → digits ≠ [] → (∀ c ∈ digits, isDigitOf radix c = true) →
      numberOf radix digits ≤ maxInt64 →
      IsNumber ('0' :: mark :: digits) (.int (.ofNat (numberOf radix digits)))
  | integer : digits ≠ [] → (∀ c ∈ digits, isDigitOf 10 c = true) →
      numberOf 10 digits ≤ maxInt64 → IsNumber digits (.int (.ofNat (numberOf 10 digits)))
  | float {parts : DecimalParts} : parts.WellFormed → parts.isFloat = true →
      IsNumber parts.taken (.float parts.numeral.nearest)

variable {cs text : List Char}

theorem not_isDigitOf_point : isDigitOf 10 '.' = false := by decide

theorem not_isDigitOf_exponent {e : Char} (h : e = 'e' ∨ e = 'E') : isDigitOf 10 e = false := by
  obtain rfl | rfl := h <;> decide

theorem startsNumber_cons {c : Char} (hc : c ≠ '.') (cs : List Char) :
    startsNumber (c :: cs) = isDigitOf 10 c := by
  rw [startsNumber]
  rintro _ _ rfl
  contradiction

theorem ne_point_of_digit {c : Char} (h : isDigitOf 10 c = true) : c ≠ '.' := by
  rintro rfl
  cases h

theorem startsNumber_of_digits (hne : text ≠ []) (hd : ∀ c ∈ text, isDigitOf 10 c = true)
    (rest : List Char) : startsNumber (text ++ rest) = true := by
  cases text with
  | nil => contradiction
  | cons d ds =>
    have hd := hd d List.mem_cons_self
    rw [List.cons_append, startsNumber_cons (ne_point_of_digit hd), hd]

theorem startsNumber_of_isPrefix (h : startsNumber text = true) (hp : text <+: cs) :
    startsNumber cs = true := by
  obtain ⟨rest, rfl⟩ := hp
  cases text with
  | nil => cases h
  | cons c text =>
    by_cases hc : c = '.'
    · subst hc
      cases text with
      | nil => cases h
      | cons d text => exact h
    · rw [startsNumber_cons hc] at h
      rw [List.cons_append, startsNumber_cons hc, h]

theorem DecimalParts.WellFormed.shaped {parts : DecimalParts} (h : parts.WellFormed) :
    parts.Shaped := by
  obtain ⟨hw, hpt, hf, hd, hm, hpw⟩ := h
  refine ⟨hw, hpt, hf, hd, ?_, hpw⟩
  obtain hm | ⟨e, he, hm, -⟩ := hm
  · exact .inl hm
  · exact .inr ⟨e, he, hm⟩

/-- What follows a literal is not part of it. -/
theorem DecimalParts.Shaped.isLiteral {parts : DecimalParts} (h : parts.Shaped) :
    IsLiteral parts.taken (.decimal { parts with rest := [] }) := by
  have hs : Shaped { parts with rest := [] } :=
    ⟨h.whole, h.point, h.fraction, h.digits, h.mark, h.power⟩
  have hl := IsLiteral.decimal hs rfl
  exact hl

theorem DecimalParts.Shaped.startsNumber {parts : DecimalParts} (h : parts.Shaped) :
    startsNumber parts.taken = true := by
  obtain ⟨whole, point, fraction, mark, power, rest⟩ := parts
  obtain ⟨hw, hpt, hf, hd, -, -⟩ := h
  dsimp only at hw hpt hf hd
  by_cases hwhole : whole = []
  · subst hwhole
    have hfraction := hd.resolve_left (fun h => h rfl)
    obtain ⟨-, hnil⟩ | rfl := hpt
    · exact absurd hnil hfraction
    · cases fraction with
      | nil => exact absurd rfl hfraction
      | cons d ds => exact hf d List.mem_cons_self
  · simp only [taken, List.append_assoc]
    exact startsNumber_of_digits hwhole hw _

theorem IsLiteral.startsNumber (h : IsLiteral text literal) : startsNumber text = true := by
  cases h with
  | radix hm => cases hm <;> rfl
  | decimal hs => exact hs.startsNumber

namespace DecimalParts

/-- A mark is read as it stands, unless it has neither sign nor digits and a sign follows. -/
theorem exponentMark_append {e : Char} {mark power : List Char} (he : e = 'e' ∨ e = 'E')
    (hm : mark = [e] ∨ mark = [e, '+'] ∨ mark = [e, '-'])
    (hd : ∀ c ∈ power, isDigitOf 10 c = true) (rest : List Char) :
    exponentMark (mark ++ (power ++ rest)) = mark ∨
      mark = [e] ∧ power = [] ∧ ∃ sign rest', (sign = '+' ∨ sign = '-') ∧ rest = sign :: rest' := by
  obtain rfl | rfl | rfl := hm
  · cases power with
    | cons d ds =>
      have hd : isDigitOf 10 d = true := hd d List.mem_cons_self
      have hsign : ¬ (d = '+' ∨ d = '-') := by
        rintro (rfl | rfl) <;> cases hd
      simp [exponentMark, he, hsign]
    | nil =>
      cases rest with
      | nil => simp [exponentMark, he]
      | cons sign rest =>
        by_cases hsign : sign = '+' ∨ sign = '-'
        · exact .inr ⟨rfl, rfl, sign, rest, hsign, rfl⟩
        · simp [exponentMark, he, hsign]
  · simp [exponentMark, he]
  · simp [exponentMark, he]

theorem takeWhile_digits {radix : Nat} {ds : List Char} (hd : ∀ c ∈ ds, isDigitOf radix c = true)
    (rest : List Char) : ds <+: (ds ++ rest).takeWhile (isDigitOf radix) := by
  rw [List.takeWhile_append_of_pos hd]
  exact List.prefix_append ..

theorem cons_of_mark {e : Char} {mark : List Char}
    (hm : mark = [e] ∨ mark = [e, '+'] ∨ mark = [e, '-']) : ∃ sign, mark = e :: sign := by
  obtain rfl | rfl | rfl := hm <;> exact ⟨_, rfl⟩

/-- A literal goes on with all the digits that follow each part, and with a sign after its mark. -/
theorem Shaped.prefix_of_mark {parts : DecimalParts} {rest : List Char} (h : parts.Shaped)
    (hmark : parts.mark ≠ [] → exponentMark (parts.mark ++ (parts.power ++ rest)) = parts.mark) :
    parts.taken <+: (split (parts.taken ++ rest)).taken := by
  obtain ⟨whole, point, fraction, mark, power, _⟩ := parts
  obtain ⟨hw, hpt, hf, -, hm, hpw⟩ := h
  simp only [taken, List.append_assoc] at *
  obtain ⟨rfl, rfl⟩ | rfl := hpt
  · obtain ⟨rfl, rfl⟩ | ⟨e, he, hm⟩ := hm
    · simp only [List.nil_append, List.append_nil]
      exact (takeWhile_digits hw rest).trans (List.prefix_append ..)
    · obtain ⟨sign, rfl⟩ := cons_of_mark hm
      have hmark := hmark (List.cons_ne_nil e sign)
      obtain ⟨ht, hd⟩ := takeWhile_stop hw (not_isDigitOf_exponent he)
        (sign ++ (power ++ rest))
      have hpoint : e ≠ '.' := by
        rintro rfl
        obtain h | h := he <;> cases h
      have hpower := takeWhile_digits hpw rest
      simp only [List.nil_append, List.cons_append] at hmark ⊢
      simpa [split, ht, hd, hpoint, hmark] using hpower
  · obtain ⟨rfl, rfl⟩ | ⟨e, he, hm⟩ := hm
    · obtain ⟨ht, hd⟩ := takeWhile_stop hw not_isDigitOf_point (fraction ++ rest)
      have hfraction := takeWhile_digits hf rest
      simp only [List.nil_append, List.cons_append, List.append_nil]
      simpa [split, ht, hd] using hfraction.trans (List.prefix_append ..)
    · obtain ⟨sign, rfl⟩ := cons_of_mark hm
      have hmark := hmark (List.cons_ne_nil e sign)
      obtain ⟨ht, hd⟩ := takeWhile_stop hw not_isDigitOf_point
        (fraction ++ (e :: sign ++ (power ++ rest)))
      obtain ⟨ht', -⟩ := takeWhile_stop hf (not_isDigitOf_exponent he)
        (sign ++ (power ++ rest))
      have hpower := takeWhile_digits hpw rest
      simp only [List.nil_append, List.cons_append] at hmark ht hd ⊢
      simpa [split, ht, hd, ht', hmark] using hpower

/-- What is read as a decimal literal goes as far as any does. -/
theorem Shaped.prefix_taken {parts : DecimalParts} (h : parts.Shaped) (hp : parts.taken <+: cs) :
    parts.taken <+: (split cs).taken := by
  obtain ⟨rest, rfl⟩ := hp
  obtain ⟨hnil, -⟩ | ⟨e, he, hm⟩ := h.mark
  · exact h.prefix_of_mark fun hne => absurd hnil hne
  · obtain hmark | ⟨hmark, hpower, sign, rest, hsign, rfl⟩ := exponentMark_append he hm h.power rest
    · exact h.prefix_of_mark fun _ => hmark
    · -- the same literal with the sign goes at least as far
      have hs : Shaped { parts with mark := [e, sign] } := by
        refine { h with mark := .inr ⟨e, he, .inr ?_⟩ }
        obtain rfl | rfl := hsign
        · exact .inl rfl
        · exact .inr rfl
      have htaken : taken { parts with mark := [e, sign] } = parts.taken ++ [sign] := by
        simp [taken, hmark, hpower]
      have := hs.prefix_of_mark fun _ =>
        show exponentMark ([e, sign] ++ (parts.power ++ rest)) = [e, sign] by
          simp [exponentMark, he, hsign]
      rw [htaken, List.append_assoc, List.singleton_append] at this
      exact (List.prefix_append ..).trans this

theorem exponentMark_cases (cs : List Char) : exponentMark cs = [] ∨ ∃ e, (e = 'e' ∨ e = 'E') ∧
    (exponentMark cs = [e] ∨ exponentMark cs = [e, '+'] ∨ exponentMark cs = [e, '-']) := by
  unfold exponentMark
  split
  · next e sign _ =>
    split
    · next he =>
      refine .inr ⟨e, he, ?_⟩
      split
      · next hs => obtain rfl | rfl := hs <;> simp
      · exact .inl rfl
    · exact .inl rfl
  · next e =>
    split
    · next he => exact .inr ⟨e, he, .inl rfl⟩
    · exact .inl rfl
  · exact .inl rfl

theorem digits_of_if {p : Prop} [Decidable p] (cs : List Char) :
    ∀ c ∈ if p then [] else cs.takeWhile (isDigitOf 10), isDigitOf 10 c = true := by
  split
  · exact nofun
  · exact List.all_eq_true.1 List.all_takeWhile

theorem split_shaped (hs : startsNumber cs = true) : (split cs).Shaped where
  whole := List.all_eq_true.1 List.all_takeWhile
  point := by
    by_cases hp : (cs.dropWhile (isDigitOf 10)).head? = some '.'
    · exact .inr (if_pos hp)
    · have hnil : (split cs).point = [] := if_neg hp
      exact .inl ⟨hnil, if_pos hnil⟩
  fraction := digits_of_if _
  digits := by
    cases cs with
    | nil => cases hs
    | cons c cs =>
      by_cases hc : c = '.'
      · subst hc
        cases cs with
        | nil => cases hs
        | cons d cs =>
          have hd : isDigitOf 10 d = true := hs
          refine .inr ?_
          simp [split, hd, not_isDigitOf_point]
      · rw [startsNumber_cons hc] at hs
        refine .inl ?_
        simp [split, hs]
  mark := by
    obtain h | ⟨e, he, h⟩ := exponentMark_cases _
    · exact .inl ⟨h, if_pos h⟩
    · exact .inr ⟨e, he, h⟩
  power := digits_of_if _

theorem Shaped.wellFormed {parts : DecimalParts} (h : parts.Shaped)
    (hm : ¬ (parts.mark ≠ [] ∧ parts.power = [])) : parts.WellFormed := by
  obtain ⟨hw, hpt, hf, hd, hmark, hpw⟩ := h
  refine ⟨hw, hpt, hf, hd, ?_, hpw⟩
  obtain hmark | ⟨e, he, hmark⟩ := hmark
  · exact .inl hmark
  · refine .inr ⟨e, he, hmark, fun hp => hm ⟨?_, hp⟩⟩
    obtain ⟨sign, hsign⟩ := cons_of_mark hmark
    rw [hsign]
    exact List.cons_ne_nil e sign

end DecimalParts

/-- A literal with neither point nor exponent is its digits. -/
theorem DecimalParts.taken_of_not_isFloat {parts : DecimalParts} (h : parts.WellFormed)
    (hf : parts.isFloat = false) : parts.taken = parts.whole ∧ parts.whole ≠ [] := by
  obtain ⟨whole, point, fraction, mark, power, rest⟩ := parts
  simp only [isFloat, Bool.or_eq_false_iff, Bool.not_eq_false', List.isEmpty_iff] at hf
  obtain ⟨rfl, rfl⟩ := hf
  obtain ⟨-, hpt, -, hd, hm, -⟩ := h
  have hfraction : fraction = [] := by
    obtain ⟨-, h⟩ | h := hpt
    · exact h
    · cases h
  have hpower : power = [] := by
    obtain ⟨-, h⟩ | ⟨e, -, h, -⟩ := hm
    · exact h
    · simp at h
  subst hfraction hpower
  exact ⟨by simp [taken], hd.resolve_right (fun h => h rfl)⟩

theorem isNumber_of_readDecimal {l : Lexeme} (hs : startsNumber cs = true)
    (h : (readDecimal cs).outcome = .ok l) :
    ∃ v, l = (.num, .number v) ∧ IsNumber (readDecimal cs).taken v := by
  simp only [readDecimal] at h ⊢
  split at h
  · cases h
  · next hm =>
    have hw := (DecimalParts.split_shaped hs).wellFormed hm
    split at h
    · cases h
    · split at h
      · next hf =>
        cases h
        exact ⟨_, rfl, .float hw hf⟩
      · next hf =>
        obtain ⟨ht, hne⟩ := DecimalParts.taken_of_not_isFloat hw (eq_false_of_ne_true hf)
        obtain ⟨hle, rfl⟩ := integerOutcome_eq_ok.1 h
        refine ⟨_, rfl, ?_⟩
        rw [ht]
        exact .integer hne hw.whole hle

theorem isNumber_of_readRadix {c : Char} {radix : Nat} {l : Lexeme} (hr : NamesRadix c radix)
    (h : (readRadix radix ('0' :: c :: cs)).outcome = .ok l) :
    ∃ v, l = (.num, .number v) ∧ IsNumber (readRadix radix ('0' :: c :: cs)).taken v := by
  simp only [readRadix] at h ⊢
  split at h
  · cases h
  · next hne =>
    split at h
    · cases h
    · obtain ⟨hle, rfl⟩ := integerOutcome_eq_ok.1 h
      exact ⟨_, rfl, .radix hr hne (List.all_eq_true.1 List.all_takeWhile) hle⟩

theorem readNumber_cases (cs : List Char) :
    (∃ c cs' radix, cs = '0' :: c :: cs' ∧ NamesRadix c radix ∧ readNumber cs = readRadix radix cs) ∨
      readNumber cs = readDecimal cs ∧
        ∀ c cs' radix, cs = '0' :: c :: cs' → ¬ NamesRadix c radix := by
  unfold readNumber
  split
  · next c cs =>
    split
    · next hc =>
      refine .inl ⟨c, cs, 16, rfl, ?_, rfl⟩
      obtain rfl | rfl := hc
      · exact .x
      · exact .X
    · next hx =>
      split
      · next hc =>
        refine .inl ⟨c, cs, 2, rfl, ?_, rfl⟩
        obtain rfl | rfl := hc
        · exact .b
        · exact .B
      · next hb =>
        refine .inr ⟨rfl, fun _ _ _ heq hr => ?_⟩
        cases heq
        cases hr <;> simp at hx hb
  · next hne =>
    refine .inr ⟨rfl, fun c cs' _ heq _ => ?_⟩
    exact hne c cs' heq

/-- What is read as a number is one. -/
theorem isNumber_of_read {l : Lexeme} (hs : startsNumber cs = true)
    (h : (readNumber cs).outcome = .ok l) :
    ∃ v, l = (.num, .number v) ∧ IsNumber (readNumber cs).taken v := by
  obtain ⟨c, cs, radix, rfl, hr, heq⟩ | ⟨heq, -⟩ := readNumber_cases cs
  · rw [heq] at h ⊢
    exact isNumber_of_readRadix hr h
  · rw [heq] at h ⊢
    exact isNumber_of_readDecimal hs h

theorem NamesRadix.unique {c : Char} {r r' : Nat} (h : NamesRadix c r) (h' : NamesRadix c r') :
    r = r' := by
  cases h <;> cases h' <;> rfl

theorem NamesRadix.split_taken {c : Char} {radix : Nat} (h : NamesRadix c radix) (cs : List Char) :
    (DecimalParts.split ('0' :: c :: cs)).taken = ['0'] := by
  have hzero : isDigitOf 10 '0' = true := by decide
  have hdigit : isDigitOf 10 c = false := by cases h <;> decide
  have hpoint : c ≠ '.' := by cases h <;> decide
  have hmark : exponentMark (c :: cs) = [] := by
    have he : ¬ (c = 'e' ∨ c = 'E') := by cases h <;> decide
    unfold exponentMark
    split
    · next heq =>
      cases heq
      rw [if_neg he]
    · next heq =>
      cases heq
      rw [if_neg he]
    · next heq => cases heq
  simp [DecimalParts.split, DecimalParts.taken, hzero, hdigit, hpoint, hmark]

/-- Digits alone are a decimal literal too. -/
theorem DecimalParts.wellFormed_of_digits (hne : text ≠ [])
    (hd : ∀ c ∈ text, isDigitOf 10 c = true) :
    WellFormed ⟨text, [], [], [], [], []⟩ where
  whole := hd
  point := .inl ⟨rfl, rfl⟩
  fraction := nofun
  digits := .inl hne
  mark := .inl ⟨rfl, rfl⟩
  power := nofun

/-- A literal is read as far as any goes. -/
theorem IsLiteral.prefix_taken {literal : Literal} (h : IsLiteral text literal) (hp : text <+: cs) :
    text <+: (readNumber cs).taken := by
  cases h with
  | decimal hs =>
    have htaken := hs.prefix_taken hp
    obtain ⟨c, cs, radix, rfl, hr, heq⟩ | ⟨heq, -⟩ := readNumber_cases cs
    · rw [hr.split_taken] at htaken
      rw [heq]
      exact htaken.trans (List.prefix_append ['0'] _)
    · rw [heq]
      exact htaken
  | @radix c radix digits hr hd =>
    obtain ⟨rest, rfl⟩ := hp
    rw [List.cons_append, List.cons_append]
    obtain ⟨_, _, radix, hcs, hr', heq⟩ | ⟨-, hne⟩ := readNumber_cases ('0' :: c :: (digits ++ rest))
    · cases hcs
      cases hr.unique hr'
      rw [heq]
      exact List.cons_prefix_cons.2 ⟨rfl, List.cons_prefix_cons.2 ⟨rfl,
        DecimalParts.takeWhile_digits hd rest⟩⟩
    · exact absurd hr (hne _ _ _ rfl)

theorem IsLiteral.digits (hne : text ≠ []) (hd : ∀ c ∈ text, isDigitOf 10 c = true) :
    IsLiteral text (.decimal ⟨text, [], [], [], [], []⟩) := by
  have hl := (DecimalParts.wellFormed_of_digits hne hd).shaped.isLiteral
  simp only [DecimalParts.taken, List.append_nil] at hl
  exact hl

theorem IsNumber.exists_literal {v : Number} (h : IsNumber text v) :
    ∃ literal, IsLiteral text literal := by
  cases h with
  | radix hm _ hd => exact ⟨_, .radix hm hd⟩
  | float hw => exact ⟨_, hw.shaped.isLiteral⟩
  | integer hne hd => exact ⟨_, .digits hne hd⟩

theorem IsNumber.startsNumber {v : Number} (h : IsNumber text v) : startsNumber text = true := by
  obtain ⟨_, hl⟩ := h.exists_literal
  exact hl.startsNumber

/-- A number is read as far as any number goes. -/
theorem IsNumber.prefix_taken {v : Number} (h : IsNumber text v) (hp : text <+: cs) :
    text <+: (readNumber cs).taken := by
  obtain ⟨_, hl⟩ := h.exists_literal
  exact hl.prefix_taken hp

theorem readNumber_fault {e : LexError} (h : (readNumber cs).outcome = .error e) :
    e.fault.isBarrier = false := by
  have integer {value : Nat} {e : LexError} (h : integerOutcome value = .error e) :
      e.fault.isBarrier = false := by
    unfold integerOutcome at h
    split at h <;> cases h
    rfl
  obtain ⟨c, cs, radix, rfl, -, heq⟩ | ⟨heq, -⟩ := readNumber_cases cs
  · rw [heq] at h
    simp only [readRadix] at h
    split at h
    · cases h
      rfl
    · split at h
      · cases h
        rfl
      · exact integer h
  · rw [heq] at h
    simp only [readDecimal] at h
    split at h
    · cases h
      rfl
    · split at h
      · cases h
        rfl
      · split at h
        · cases h
        · exact integer h

end ArithLang
