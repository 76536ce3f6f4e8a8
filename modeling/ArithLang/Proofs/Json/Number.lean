import ArithLang.Proofs.Json.Numeral

/-!
Numbers that are written as integers. Each is read back, as the integer it is or as a natural number;
one beyond the integers still has a value as a float, since no 64 bits of it make that infinite.
-/

namespace ArithLang

namespace Binary64

variable {num den k : Nat} {x : Binary64}

theorem unscale_den_pos (hden : 0 < den) (e : Int) : 0 < (unscale num den e).2 := by
  unfold unscale
  split
  · exact Nat.mul_pos hden (Nat.two_pow_pos _)
  · exact hden

/-- Less 53 binary places, a quotient keeps no more than 54. -/
theorem unscale_div_lt {e : Int} (hden : 0 < den) (he : (num.log2 : Int) - den.log2 - 53 ≤ e) :
    (unscale num den e).1 / (unscale num den e).2 < Nat.pow 2 54 := by
  apply Nat.div_lt_of_lt_mul
  unfold unscale
  split
  · calc num < 2 ^ (num.log2 + 1) := Nat.lt_log2_self
      _ ≤ 2 ^ (den.log2 + e.toNat + 54) := Nat.pow_le_pow_right (by decide) (by omega)
      _ = 2 ^ den.log2 * 2 ^ e.toNat * 2 ^ 54 := by rw [Nat.pow_add, Nat.pow_add]
      _ ≤ den * 2 ^ e.toNat * 2 ^ 54 :=
        Nat.mul_le_mul_right _ (Nat.mul_le_mul_right _ (Nat.log2_self_le (by omega)))
  · calc num * 2 ^ (-e).toNat < 2 ^ (num.log2 + 1) * 2 ^ (-e).toNat :=
          Nat.mul_lt_mul_of_pos_right Nat.lt_log2_self (Nat.two_pow_pos _)
      _ = 2 ^ (num.log2 + 1 + (-e).toNat) := (Nat.pow_add ..).symm
      _ ≤ 2 ^ (den.log2 + 54) := Nat.pow_le_pow_right (by decide) (by omega)
      _ = 2 ^ den.log2 * 2 ^ 54 := Nat.pow_add ..
      _ ≤ den * 2 ^ 54 := Nat.mul_le_mul_right _ (Nat.log2_self_le (by omega))

theorem roundDiv_le (num den : Nat) : roundDiv num den ≤ num / den + 1 := by
  unfold roundDiv
  grind

/-- The bits of a rounded fraction, from the binary place of its last digit. -/
theorem exists_bits_ofRatio (hnum : num ≠ 0) (den : Nat) :
    ∃ e : Int, (num.log2 : Int) - den.log2 - 53 ≤ e ∧
      e ≤ max ((num.log2 : Int) - den.log2 - 52) (-1074) ∧
      (ofRatio num den).bits.toNat =
        min ((e + 1074).toNat * hiddenBit + roundDiv (unscale num den e).1 (unscale num den e).2)
          infinity.bits.toNat := by
  let guess : Int := num.log2 - den.log2
  let top := if (unscale num den guess).2 ≤ (unscale num den guess).1 then guess else guess - 1
  have htop : guess - 1 ≤ top ∧ top ≤ guess := by grind
  refine ⟨max (top - 52) (-1074), by omega, by omega, ?_⟩
  rw [ofRatio, if_neg hnum]
  exact UInt64.toNat_ofNat_of_lt (Nat.lt_of_le_of_lt (Nat.min_le_right _ _) (by decide))

/-- Rounding moves a fraction by few binary places. -/
theorem bits_ofRatio_le (hden : 0 < den) (h : num.log2 ≤ den.log2 + k) :
    (ofRatio num den).bits.toNat ≤ (k + 1026) * hiddenBit := by
  by_cases hnum : num = 0
  · rw [hnum]
    exact Nat.zero_le _
  · obtain ⟨e, hlow, hhigh, hbits⟩ := exists_bits_ofRatio hnum den
    have hplace : (e + 1074).toNat ≤ k + 1022 := by omega
    have hround : roundDiv (unscale num den e).1 (unscale num den e).2 ≤ 4 * hiddenBit :=
      Nat.le_trans (roundDiv_le _ _) (unscale_div_lt hden hlow)
    calc (ofRatio num den).bits.toNat
        ≤ (e + 1074).toNat * hiddenBit + roundDiv (unscale num den e).1 (unscale num den e).2 :=
          hbits ▸ Nat.min_le_left _ _
      _ ≤ (k + 1022) * hiddenBit + 4 * hiddenBit :=
          Nat.add_le_add (Nat.mul_le_mul_right _ hplace) hround
      _ = (k + 1026) * hiddenBit := (Nat.add_mul ..).symm

theorem biasedExponent_le (h : x.bits.toNat ≤ k * hiddenBit) : x.biasedExponent ≤ k :=
  Nat.le_trans (Nat.mod_le _ _) (Nat.div_le_of_le_mul (Nat.mul_comm k _ ▸ h))

theorem isFinite_of_bits_le (hk : k < 0x7ff) (h : x.bits.toNat ≤ k * hiddenBit) :
    x.isFinite = true := by
  have := biasedExponent_le h
  simp only [isFinite, bne_iff_ne]
  omega

/-- A number of few binary places before its point. -/
theorem toRatio_lt (h : x.biasedExponent ≤ 1075 + k) : x.toRatio.1 < Nat.pow 2 (53 + k) := by
  have hsignificand : x.significand < 2 ^ 53 := by
    have := Nat.mod_lt x.bits.toNat (show 0 < hiddenBit by decide)
    unfold significand fraction hiddenBit at *
    split <;> omega
  have hexponent : (-(-x.exponent)).toNat ≤ k := by
    unfold exponent
    omega
  unfold toRatio unscale
  split
  · exact Nat.lt_of_lt_of_le hsignificand (Nat.pow_le_pow_right (by decide) (by omega))
  · calc x.significand * 2 ^ (-(-x.exponent)).toNat
        < 2 ^ 53 * 2 ^ (-(-x.exponent)).toNat :=
          Nat.mul_lt_mul_of_pos_right hsignificand (Nat.two_pow_pos _)
      _ ≤ 2 ^ 53 * 2 ^ k :=
          Nat.mul_le_mul_left _ (Nat.pow_le_pow_right (by decide) hexponent)
      _ = 2 ^ (53 + k) := (Nat.pow_add ..).symm

theorem toRatio_den_pos (x : Binary64) : 0 < x.toRatio.2 :=
  unscale_den_pos Nat.one_pos _

/-- The product of numbers with few binary places before their points is no infinity. -/
theorem isFinite_mul {y : Binary64} {j : Nat} (hx : x.toRatio.1 < Nat.pow 2 j)
    (hy : y.toRatio.1 < Nat.pow 2 k) (hjk : j + k < 1000) : (x.mul y).isFinite = true := by
  have hden := Nat.mul_pos (toRatio_den_pos x) (toRatio_den_pos y)
  have hnum : x.toRatio.1 * y.toRatio.1 < 2 ^ (j + k) := by
    rw [Nat.pow_add]
    exact Nat.mul_lt_mul'' hx hy
  have hlog : (x.toRatio.1 * y.toRatio.1).log2 ≤ j + k := by
    by_cases hzero : x.toRatio.1 * y.toRatio.1 = 0
    · rw [hzero]
      exact Nat.zero_le _
    · exact Nat.le_of_lt ((Nat.log2_lt hzero).mpr hnum)
  exact isFinite_of_bits_le (by omega)
    (bits_ofRatio_le hden (Nat.le_trans hlog (Nat.le_add_left _ _)))

end Binary64

namespace Numeral

/-- Digits read so far count towards the number. -/
theorem le_foldl_digits (n : Nat) (cs : List Char) :
    n ≤ cs.foldl (fun n c => n * 10 + (digitValue? 10 c).getD 0) n := by
  induction cs generalizing n with
  | nil => exact Nat.le_refl n
  | cons c cs ih =>
    rw [List.foldl_cons]
    exact Nat.le_trans (by omega) (ih _)

/-- Digits of a number of 64 bits are all read. -/
theorem gather_eq (n : Nat) (cs : List Char)
    (h : cs.foldl (fun n c => n * 10 + (digitValue? 10 c).getD 0) n < wordSize) :
    gather n cs = (cs.foldl (fun n c => n * 10 + (digitValue? 10 c).getD 0) n, 0) := by
  induction cs generalizing n with
  | nil => rfl
  | cons c cs ih =>
    rw [List.foldl_cons] at h ⊢
    rw [gather, if_pos (Nat.lt_of_le_of_lt (le_foldl_digits _ cs) h)]
    exact ih _ h

/-- A natural number of 64 bits is no infinity, also as a float. -/
theorem isSome_scale? {n : Nat} (h : n < wordSize) : (scale? (.ofRatio n 1) 0).isSome = true := by
  have hlog : n.log2 ≤ Nat.log2 1 + 64 := by
    by_cases hzero : n = 0
    · rw [hzero]
      exact Nat.zero_le _
    · exact Nat.le_trans (Nat.le_of_lt ((Nat.log2_lt hzero).mpr h)) (Nat.le_add_left _ _)
  have hratio := Binary64.toRatio_lt (k := 15)
    (Binary64.biasedExponent_le (Binary64.bits_ofRatio_le Nat.one_pos hlog))
  have hproduct : (Binary64.mul (.ofRatio n 1) (.ofDecimal 1 0)).isFinite = true :=
    Binary64.isFinite_mul hratio (k := 53) (by decide) (by decide)
  unfold scale?
  split
  · rfl
  · simp [hproduct]

theorem isSome_number?_toDigits {n : Nat} (h : n < wordSize) :
    (number? { whole := Nat.toDigits 10 n }).isSome = true := by
  have hgather : gather 0 (Nat.toDigits 10 n) = (n, 0) := by
    have hvalue := numberOf_toDigits n
    rw [numberOf] at hvalue
    rw [gather_eq _ _ (by rw [hvalue]; exact h), hvalue]
  have hfloat : (float? { whole := Nat.toDigits 10 n }).isSome = true := by
    rw [float?, hgather]
    simpa [gather] using isSome_scale? h
  by_cases hmax : n ≤ maxInt64
  · simp [number?, isInteger, numberOf_toDigits, hmax]
  · simpa [number?, isInteger, numberOf_toDigits, hmax] using hfloat

end Numeral

namespace Json

theorem ofNat_eq (n : Nat) : ofNat n = number { whole := Nat.toDigits 10 n } := by
  have hn : ¬ (n : Int) < 0 := by omega
  simp [ofNat, ofInt, hn]

theorem nat?_ofNat {n : Nat} (h : n < wordSize) : (ofNat n).nat? = some n := by
  simp [ofNat_eq, nat?, Numeral.isInteger, numberOf_toDigits, h]

theorem number?_ofInt (n : Int64) : (ofInt n.toInt).number? = some (.int n) := by
  have hlow := n.le_toInt
  have hhigh := n.toInt_lt
  rw [ofInt, number?, Numeral.number?, numberOf_toDigits]
  generalize hk : n.toInt.natAbs = k
  by_cases hneg : n.toInt < 0
  · have hvalue : -(k : Int) = n.toInt := by omega
    have hmax : k ≤ maxInt64 + 1 := by unfold maxInt64; omega
    have hpos : 0 < k := by omega
    simp [Numeral.isInteger, hneg, hvalue, hmax, hpos]
  · have hvalue : (k : Int) = n.toInt := by omega
    have hmax : k ≤ maxInt64 := by unfold maxInt64; omega
    simp [Numeral.isInteger, hneg, hmax, ← Int64.ofInt_eq_ofNat, hvalue]

end Json

end ArithLang
