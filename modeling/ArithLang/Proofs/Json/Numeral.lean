import ArithLang.Json.Number
import ArithLang.Json.Printer
import ArithLang.Json.Reader

/-! Numerals in JSON text: what is written as one is read as the same, whatever delimits it. -/

namespace ArithLang

/-- Digits of a number spell that number. -/
theorem numberOf_toDigits (n : Nat) : numberOf 10 (Nat.toDigits 10 n) = n := by
  have value : ∀ d < 10, (digitValue? 10 (Nat.digitChar d)).getD 0 = d := by decide
  -- All digits but the last are those of a tenth of the number.
  induction n using Nat.strongRecOn with
  | ind n ih =>
    by_cases h : n < 10
    · rw [Nat.toDigits_of_lt_base h, ← List.nil_append [_], numberOf_concat, value n h,
        numberOf_nil, Nat.zero_mul, Nat.zero_add]
    · rw [Nat.toDigits_of_base_le (by decide) (Nat.le_of_not_lt h), numberOf_concat,
        ih _ (by omega), value _ (Nat.mod_lt n (by decide))]
      omega

theorem isDigit_toDigits (n : Nat) : ∀ c ∈ Nat.toDigits 10 n, c.isDigit = true :=
  fun _ => Nat.isDigit_of_mem_toDigits (by decide) (by decide)

namespace Numeral

/-- Made of digits, as numerals are that are written. -/
structure Digital (n : Numeral) : Prop where
  whole_ne : n.whole ≠ []
  whole : ∀ c ∈ n.whole, c.isDigit = true
  fraction : ∀ c ∈ n.fraction, c.isDigit = true

/-- A zero stands before other digits. -/
abbrev Padded (n : Numeral) : Prop := n.whole.head? = some '0' ∧ n.whole.length ≠ 1

end Numeral

/-- No zero stands before the digits of a number. -/
theorem head?_toDigits_ne {n : Nat} (hn : n ≠ 0) : (Nat.toDigits 10 n).head? ≠ some '0' := by
  have leading : ∀ d < 10, d ≠ 0 → [Nat.digitChar d].head? ≠ some '0' := by decide
  induction n using Nat.strongRecOn with
  | ind n ih =>
    by_cases h : n < 10
    · rw [Nat.toDigits_of_lt_base h]
      exact leading n h hn
    · obtain ⟨c, cs, hc⟩ := List.exists_cons_of_ne_nil (Nat.toDigits_ne_nil (b := 10) (n := n / 10))
      rw [Nat.toDigits_of_base_le (by decide) (Nat.le_of_not_lt h), hc, List.cons_append,
        List.head?_cons, ← List.head?_cons (l := cs), ← hc]
      exact ih _ (by omega) (by omega)

/-- Digits of a number, with a sign or without, are a numeral that reads as written. -/
theorem digital_toDigits (n : Nat) (negative : Bool) :
    Numeral.Digital { negative, whole := Nat.toDigits 10 n } ∧
      ¬ Numeral.Padded { negative, whole := Nat.toDigits 10 n } := by
  refine ⟨⟨Nat.toDigits_ne_nil, isDigit_toDigits n, fun _ hc => (List.not_mem_nil hc).elim⟩, ?_⟩
  rintro ⟨hhead, hlength⟩
  by_cases hn : n = 0
  · exact hlength (by rw [hn, Nat.toDigits_zero]; rfl)
  · exact head?_toDigits_ne hn hhead

namespace FloatStyle

variable {digits : List Char}

theorem place_digital (style : FloatStyle) (exponent : Int) (hne : digits ≠ [])
    (hd : ∀ c ∈ digits, c.isDigit = true) : (style.place digits exponent).Digital := by
  have hzeros (k : Nat) : ∀ c ∈ List.replicate k '0', c.isDigit = true := by
    intro c hc
    rw [List.eq_of_mem_replicate hc]
    rfl
  have hpart (n : Nat) :
      (∀ c ∈ digits.take n, c.isDigit = true) ∧ ∀ c ∈ digits.drop n, c.isDigit = true :=
    ⟨fun c hc => hd c (List.mem_of_mem_take hc), fun c hc => hd c (List.mem_of_mem_drop hc)⟩
  have hfirst {n : Nat} (hn : n ≠ 0) : digits.take n ≠ [] := by
    simp [List.take_eq_nil_iff, hn, hne]
  rw [place]
  split
  · split
    · refine ⟨by simp [hne], fun c hc => ?_, fun c hc => ?_⟩
      · exact (List.mem_append.mp hc).elim (hd c) (hzeros _ c)
      · split at hc <;> simp_all
    · split
      · exact ⟨hfirst (by omega), (hpart _).1, (hpart _).2⟩
      · refine ⟨by simp, by simp, fun c hc => ?_⟩
        exact (List.mem_append.mp hc).elim (hzeros _ c) (hd c)
  · exact ⟨hfirst (by decide), (hpart 1).1, (hpart 1).2⟩

/-- Floats are written in digits, whatever the style. -/
theorem numeral_digital (style : FloatStyle) (x : Binary64) : (style.numeral x).Digital := by
  have hbody : (if x.isZero then style.place ['0'] 0 else
      style.place (Nat.toDigits 10 (x.shortest style.tieUp).digits)
        (x.shortest style.tieUp).exponent).Digital := by
    split
    · exact place_digital style 0 (List.cons_ne_nil _ _) (isDigit_toDigits 0)
    · exact place_digital style _ Nat.toDigits_ne_nil (isDigit_toDigits _)
  exact ⟨hbody.whole_ne, hbody.whole, hbody.fraction⟩

end FloatStyle

namespace Json

/-- What may follow a value. -/
def Delimits (cs : List Char) : Prop := ∀ c, cs.head? = some c → c = ',' ∨ c = ']' ∨ c = '\x7d'

variable {more ds : List Char} {n : Numeral}

theorem digits_append (hd : ∀ c ∈ ds, c.isDigit = true)
    (hm : ∀ c, more.head? = some c → c.isDigit = false) :
    digits (ds ++ more) = ds ∧ afterDigits (ds ++ more) = more := by
  rw [digits, afterDigits, List.takeWhile_append_of_pos hd, List.dropWhile_append_of_pos hd]
  cases more with
  | nil => exact ⟨List.append_nil ds, rfl⟩
  | cons c more =>
    have hc := ne_true_of_eq_false (hm c rfl)
    rw [List.takeWhile_cons_of_neg hc, List.dropWhile_cons_of_neg hc]
    exact ⟨List.append_nil ds, rfl⟩

theorem Delimits.not_isDigit (h : Delimits more) : ∀ c, more.head? = some c → c.isDigit = false := by
  intro c hc
  obtain rfl | rfl | rfl := h c hc <;> rfl

theorem Delimits.not_exponent (h : Delimits more) : ∀ c, more.head? = some c → c ≠ 'e' ∧ c ≠ 'E' := by
  intro c hc
  obtain rfl | rfl | rfl := h c hc <;> decide

theorem exponentTail_text (n : Numeral) (hm : Delimits more) :
    exponentTail { n with exponent := none } (n.exponent.elim [] Numeral.exponentText ++ more) =
      some (n, more) := by
  cases he : n.exponent with
  | none =>
    have hn : { n with exponent := none } = n := by rw [← he]
    rw [hn, Option.elim_none, List.nil_append]
    match more, hm.not_exponent with
    | [], _ => rfl
    | [c], h =>
      have := h c rfl
      simp [exponentTail, this]
    | c :: d :: more, h =>
      have := h c rfl
      simp [exponentTail, this]
  | some e =>
    obtain ⟨hd, ha⟩ := digits_append (isDigit_toDigits e.natAbs) hm.not_isDigit
    have hn (e' : Int) (h : e' = e) : { n with exponent := some e' } = n := by rw [h, ← he]
    rw [Option.elim_some, Numeral.exponentText]
    generalize hk : e.natAbs = k at *
    by_cases hneg : e < 0
    · have he' : -(k : Int) = e := by omega
      simp [exponentTail, hneg, hd, ha, numberOf_toDigits, he', hn]
    · have he' : (k : Int) = e := by omega
      simp [exponentTail, hneg, hd, ha, numberOf_toDigits, he', hn]

theorem fractionTail_of_head {cs : List Char} (h : cs.head? ≠ some '.') :
    fractionTail n cs = exponentTail n cs := by
  unfold fractionTail
  split
  · exact absurd rfl h
  · rfl

/-- What follows the digits of a numeral. -/
theorem exponentText_head (n : Numeral) (hm : Delimits more) :
    ∀ c, (n.exponent.elim [] Numeral.exponentText ++ more).head? = some c →
      c.isDigit = false ∧ c ≠ '.' := by
  intro c hc
  cases he : n.exponent with
  | none =>
    rw [he] at hc
    obtain rfl | rfl | rfl := hm c hc <;> decide
  | some e =>
    rw [he] at hc
    cases hc
    decide

theorem fractionTail_text (hf : ∀ c ∈ n.fraction, c.isDigit = true) (hm : Delimits more) :
    fractionTail { n with fraction := [], exponent := none }
      ((if n.fraction = [] then [] else '.' :: n.fraction) ++
        (n.exponent.elim [] Numeral.exponentText ++ more)) = some (n, more) := by
  have htail := exponentText_head n hm
  obtain ⟨hd, ha⟩ := digits_append hf fun c hc => (htail c hc).1
  by_cases hnil : n.fraction = []
  · have hn : { n with fraction := [], exponent := none } = { n with exponent := none } := by
      rw [hnil]
    rw [if_pos hnil, List.nil_append, fractionTail_of_head fun hc => (htail _ hc).2 rfl, hn]
    exact exponentTail_text n hm
  · rw [if_neg hnil, List.cons_append, fractionTail, hd, ha, if_neg hnil]
    exact exponentTail_text n hm

/-- What follows the sign of a numeral. -/
theorem unsignedNumeral_text (h : n.Digital) (hm : Delimits more) :
    unsignedNumeral n.negative (n.whole ++
      ((if n.fraction = [] then [] else '.' :: n.fraction) ++
        (n.exponent.elim [] Numeral.exponentText ++ more))) =
      if n.Padded then none else some (n, more) := by
  have hhead : ∀ c, ((if n.fraction = [] then [] else '.' :: n.fraction) ++
      (n.exponent.elim [] Numeral.exponentText ++ more)).head? = some c → c.isDigit = false := by
    intro c hc
    by_cases hnil : n.fraction = []
    · rw [if_pos hnil] at hc
      exact (exponentText_head n hm c hc).1
    · rw [if_neg hnil] at hc
      cases hc
      rfl
  obtain ⟨hd, ha⟩ := digits_append h.whole hhead
  rw [unsignedNumeral, hd, ha]
  by_cases hpadded : n.Padded
  · rw [if_pos hpadded, if_pos (.inr hpadded)]
  · rw [if_neg hpadded, if_neg (not_or.mpr ⟨h.whole_ne, hpadded⟩)]
    exact fractionTail_text h.fraction hm

/-- What is written as a numeral is read as that one, unless a zero stands before its other digits. -/
theorem numeral_text (h : n.Digital) (hm : Delimits more) :
    numeral (n.text ++ more) = if n.Padded then none else some (n, more) := by
  rw [← unsignedNumeral_text h hm]
  simp only [Numeral.text, List.append_assoc]
  cases hneg : n.negative with
  | true => rfl
  | false =>
    obtain ⟨c, cs, hc⟩ := List.exists_cons_of_ne_nil h.whole_ne
    have hsign : c ≠ '-' := by
      have hdigit := h.whole c (hc ▸ List.mem_cons_self)
      rintro rfl
      cases hdigit
    rw [if_neg Bool.false_ne_true, List.nil_append, hc, List.cons_append]
    unfold numeral
    split
    · next heq => exact absurd (List.cons.inj heq).1 hsign
    · rfl

end Json

end ArithLang
