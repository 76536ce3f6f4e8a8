import Mathlib.Data.List.Induction
import Mathlib.Data.Nat.Digits.Defs
import ArithLang.Proofs.Lexeme.Cut

/-!
Number literals and their values. Where a number begins the longest literal is read, its digits as the
number that they stand for by their places.
-/

namespace ArithLang

/-- A digit by its place among the digits; what is no digit comes after them all. -/
def digitOf (c : Char) : Nat :=
  "0123456789abcdef".toList.idxOf c.toLower

/-- The number that digits stand for, each by its place. -/
def placeValue (radix : Nat) (digits : List Char) : Nat :=
  Nat.ofDigits radix (digits.reverse.map digitOf)

/-- The text begins with a literal, and with no longer one. -/
structure BeginsLiteral (cs text : List Char) (literal : Literal) (rest : List Char) : Prop where
  append_eq : text ++ rest = cs
  isLiteral : IsLiteral text literal
  longest : ∀ text' literal', IsLiteral text' literal' → text' <+: cs → text' <+: text

namespace Literal

/-- No digits are missing. -/
def IsWhole : Literal → Prop
  | .radix _ digits => digits ≠ []
  | .decimal parts => parts.mark ≠ [] → parts.power ≠ []

/-- The value of an integer. -/
def integer? : Literal → Option Nat
  | .radix base digits => some (placeValue base digits)
  | .decimal parts => if parts.isFloat then none else some (placeValue 10 parts.whole)

/-- What a literal is read as: the first thing that is wrong with it, or its value. -/
inductive Reads (text rest : List Char) : Literal → Except LexError Lexeme → Prop
  | noDigits : Reads text rest (.radix base []) (.error ⟨.missingDigits base, 2⟩)
  | noPower : parts.mark ≠ [] → parts.power = [] →
      Reads text rest (.decimal parts) (.error ⟨.invalidNumber, 0⟩)
  | name : literal.IsWhole → startsName rest = true →
      Reads text rest literal (.error ⟨.nameAfterNumber, Text.byteLength text⟩)
  | large : literal.IsWhole → startsName rest = false → literal.integer? = some n →
      maxInt64 < n → Reads text rest literal (.error ⟨.numberOutOfRange, 0⟩)
  | integer : literal.IsWhole → startsName rest = false → literal.integer? = some n →
      n ≤ maxInt64 → Int64.toInt i = n → Reads text rest literal (.ok (.num, .number (.int i)))
  | float : IsWhole (.decimal parts) → startsName rest = false → parts.isFloat = true →
      Reads text rest (.decimal parts) (.ok (.num, .number (.float parts.numeral.nearest)))

end Literal

variable {radix n : Nat} {c mark : Char} {cs text rest digits : List Char} {literal literal' : Literal}

theorem digitValue?_of_lt {n : Nat} (hn : n < 128) : digitValue? 16 (.ofNat n) =
    if digitOf (.ofNat n) < 16 then some (digitOf (.ofNat n)) else none := by
  revert n
  decide +kernel

/-- No digit is beyond ASCII. -/
theorem digitValue?_of_le (hc : 128 ≤ c.toNat) : digitValue? 16 c = none ∧ digitOf c = 16 := by
  have hnot {d : Char} (hd : d.toNat < 128) : ¬ c ≤ d := by
    intro h
    exact Nat.not_le_of_lt hd (Nat.le_trans hc h)
  constructor
  · have hdigit : c.isDigit = false := by
      refine eq_false_of_ne_true fun h => ?_
      exact absurd (Nat.le_trans hc (Char.isDigit_iff_toNat.1 h).2) (by decide)
    simp [digitValue?, hdigit, hnot (d := 'f') (by decide), hnot (d := 'F') (by decide)]
  · have hlower : c.toLower = c := by
      delta Char.toLower
      exact dif_neg fun h => hnot (d := 'Z') (by decide) h.2
    rw [digitOf, hlower]
    refine List.idxOf_eq_length fun hmem => ?_
    have htable : "0123456789abcdef".toList.all (·.toNat < 128) = true := rfl
    exact Nat.not_le_of_lt (of_decide_eq_true (List.all_eq_true.1 htable c hmem)) hc

theorem digitValue?_filter (hr : radix ≤ 16) (c : Char) :
    digitValue? radix c = (digitValue? 16 c).filter (· < radix) := by
  unfold digitValue?
  dsimp only
  generalize (if c.isDigit = true then _ else _ : Nat) = value
  by_cases h : value < radix
  · have : value < 16 := Nat.lt_of_lt_of_le h hr
    simp [Option.filter, h, this]
  · by_cases h16 : value < 16 <;> simp [Option.filter, h, h16]

theorem digitValue?_eq (hr : radix ≤ 16) (c : Char) :
    digitValue? radix c = if digitOf c < radix then some (digitOf c) else none := by
  have h16 : digitValue? 16 c = if digitOf c < 16 then some (digitOf c) else none := by
    by_cases hc : c.toNat < 128
    · have := digitValue?_of_lt hc
      rwa [Char.ofNat_toNat] at this
    · obtain ⟨hv, hd⟩ := digitValue?_of_le (Nat.le_of_not_lt hc)
      rw [hv, hd]
      rfl
  rw [digitValue?_filter hr, h16]
  by_cases h : digitOf c < radix
  · simp [Option.filter, h, Nat.lt_of_lt_of_le h hr]
  · by_cases h' : digitOf c < 16 <;> simp [Option.filter, h, h']

/-- Digits are read as the number that they stand for. -/
theorem numberOf_eq_placeValue (hr : radix ≤ 16) (hd : ∀ c ∈ digits, isDigitOf radix c = true) :
    numberOf radix digits = placeValue radix digits := by
  induction digits using List.reverseRecOn with
  | nil => rfl
  | append_singleton digits c ih =>
    rw [List.forall_mem_append] at hd
    have hc : isDigitOf radix c = true := hd.2 c List.mem_cons_self
    rw [isDigitOf, digitValue?_eq hr] at hc
    rw [numberOf_concat, ih hd.1, placeValue, placeValue, List.reverse_append, digitValue?_eq hr]
    split at hc
    · next h => simp [h, Nat.ofDigits_cons, Nat.add_comm, Nat.mul_comm]
    · cases hc

namespace DecimalParts

theorem exponentMark_alone {e : Char} {mark power : List Char} (he : e = 'e' ∨ e = 'E')
    (hm : mark = [e] ∨ mark = [e, '+'] ∨ mark = [e, '-'])
    (hd : ∀ c ∈ power, isDigitOf 10 c = true) : exponentMark (mark ++ power) = mark := by
  obtain h | ⟨-, -, _, _, -, h⟩ := exponentMark_append he hm hd []
  · rwa [List.append_nil] at h
  · cases h

/-- Parts that stand alone are those into which their text is split. -/
theorem Shaped.split_eq {parts : DecimalParts} (h : parts.Shaped) (hr : parts.rest = []) :
    split parts.taken = parts := by
  obtain ⟨whole, point, fraction, mark, power, rest⟩ := parts
  obtain ⟨hw, hpt, hf, -, hm, hpw⟩ := h
  obtain rfl : rest = [] := hr
  have hpower : power.takeWhile (isDigitOf 10) = power := List.takeWhile_eq_self_iff.2 hpw
  simp only [taken, List.append_assoc] at *
  obtain ⟨rfl, rfl⟩ | rfl := hpt
  · obtain ⟨rfl, rfl⟩ | ⟨e, he, hm⟩ := hm
    · have hwhole : whole.takeWhile (isDigitOf 10) = whole := List.takeWhile_eq_self_iff.2 hw
      have hend : whole.dropWhile (isDigitOf 10) = [] := List.dropWhile_eq_nil_iff.2 hw
      simp [split, exponentMark, hwhole, hend]
    · have hmark := exponentMark_alone he hm hpw
      obtain ⟨sign, rfl⟩ := cons_of_mark hm
      obtain ⟨ht, hd⟩ := takeWhile_stop hw (not_isDigitOf_exponent he) (sign ++ power)
      have hpoint : e ≠ '.' := by
        rintro rfl
        obtain h | h := he <;> cases h
      simp only [List.cons_append] at hmark
      simp [split, ht, hd, hpoint, hmark, hpower]
  · obtain ⟨rfl, rfl⟩ | ⟨e, he, hm⟩ := hm
    · obtain ⟨ht, hd⟩ := takeWhile_stop hw not_isDigitOf_point fraction
      have hfraction : fraction.takeWhile (isDigitOf 10) = fraction := List.takeWhile_eq_self_iff.2 hf
      simp [split, exponentMark, ht, hd, hfraction]
    · have hmark := exponentMark_alone he hm hpw
      obtain ⟨sign, rfl⟩ := cons_of_mark hm
      obtain ⟨ht, hd⟩ := takeWhile_stop hw not_isDigitOf_point (fraction ++ (e :: sign ++ power))
      obtain ⟨ht', -⟩ := takeWhile_stop hf (not_isDigitOf_exponent he) (sign ++ power)
      simp only [List.cons_append] at hmark ht hd
      simp [split, ht, hd, ht', hmark, hpower]

end DecimalParts

theorem NamesRadix.le_sixteen (h : NamesRadix mark radix) : radix ≤ 16 := by
  cases h <;> decide

/-- What names a radix does not go on with decimal parts. -/
theorem DecimalParts.Shaped.ne_radix {parts : DecimalParts} (h : parts.Shaped)
    (hr : NamesRadix mark radix) : parts.taken ≠ '0' :: mark :: digits := by
  intro heq
  have hp : parts.taken <+: '0' :: mark :: digits := ⟨[], by rw [List.append_nil, heq]⟩
  have htaken := (h.prefix_taken hp).length_le
  rw [hr.split_taken, heq] at htaken
  simp at htaken

/-- A text is written as one literal at most. -/
theorem IsLiteral.unique (h : IsLiteral text literal) (h' : IsLiteral text literal') :
    literal = literal' := by
  cases h with
  | radix hr _ =>
    generalize htext : '0' :: _ :: _ = text at h'
    cases h' with
    | radix hr' _ =>
      cases htext
      rw [hr.unique hr']
    | decimal hs' _ => exact absurd htext.symm (hs'.ne_radix hr)
  | @decimal parts hs hrest =>
    generalize htext : parts.taken = text at h'
    cases h' with
    | radix hr' _ => exact absurd htext (hs.ne_radix hr')
    | decimal hs' hrest' => rw [← hs.split_eq hrest, htext, hs'.split_eq hrest']

namespace Literal

theorem not_isWhole_of_noPower {parts : DecimalParts} (hm : parts.mark ≠ []) (hp : parts.power = []) :
    ¬ IsWhole (.decimal parts) := fun h => h hm hp

theorem integer?_of_isFloat {parts : DecimalParts} (h : parts.isFloat = true) :
    integer? (.decimal parts) = none := if_pos h

/-- A literal is read as one thing only. -/
theorem Reads.unique {r r' : Except LexError Lexeme} (h : literal.Reads text rest r)
    (h' : literal.Reads text rest r') : r = r' := by
  cases h with
  | noDigits =>
    cases h' with
    | noDigits => rfl
    | name hw | large hw | integer hw => exact absurd rfl hw
  | noPower hm hp =>
    have hnot := not_isWhole_of_noPower hm hp
    cases h' with
    | noPower => rfl
    | name hw | large hw | integer hw | float hw => exact absurd hw hnot
  | name hw hn =>
    cases h' with
    | name => rfl
    | noDigits => exact absurd rfl hw
    | noPower hm hp => exact absurd hw (not_isWhole_of_noPower hm hp)
    | large _ hn' | integer _ hn' | float _ hn' => cases hn.symm.trans hn'
  | large hw hn hv hlt =>
    cases h' with
    | large => rfl
    | noDigits => exact absurd rfl hw
    | noPower hm hp => exact absurd hw (not_isWhole_of_noPower hm hp)
    | name _ hn' => cases hn.symm.trans hn'
    | integer _ _ hv' hle =>
      cases hv.symm.trans hv'
      exact absurd hlt (Nat.not_lt_of_le hle)
    | float _ _ hf => cases hv.symm.trans (integer?_of_isFloat hf)
  | integer hw hn hv hle hi =>
    cases h' with
    | noDigits => exact absurd rfl hw
    | noPower hm hp => exact absurd hw (not_isWhole_of_noPower hm hp)
    | name _ hn' => cases hn.symm.trans hn'
    | large _ _ hv' hlt =>
      cases hv.symm.trans hv'
      exact absurd hlt (Nat.not_lt_of_le hle)
    | integer _ _ hv' _ hi' =>
      cases hv.symm.trans hv'
      rw [Int64.toInt_inj.1 (hi.trans hi'.symm)]
    | float _ _ hf => cases hv.symm.trans (integer?_of_isFloat hf)
  | float hw hn hf =>
    cases h' with
    | noPower hm hp => exact absurd hw (not_isWhole_of_noPower hm hp)
    | name _ hn' => cases hn.symm.trans hn'
    | large _ _ hv | integer _ _ hv => cases hv.symm.trans (integer?_of_isFloat hf)
    | float => rfl

end Literal

/-- An integer is read as its value if that is not too large. -/
theorem Literal.reads_integer (hw : literal.IsWhole) (hn : startsName rest = false)
    (hv : literal.integer? = some n) : literal.Reads text rest (integerOutcome n) := by
  by_cases hle : n ≤ maxInt64
  · rw [integerOutcome_eq_ok.2 ⟨hle, rfl⟩]
    exact .integer hw hn hv hle (Int64.toInt_ofNat_of_lt (Nat.lt_succ_of_le hle))
  · rw [integerOutcome, if_pos (Nat.lt_of_not_le hle)]
    exact .large hw hn hv (Nat.lt_of_not_le hle)

/-- Where a number begins, a literal is read. -/
theorem exists_literal (hs : startsNumber cs = true) : ∃ literal,
    IsLiteral (readNumber cs).taken literal ∧
      literal.Reads (readNumber cs).taken (readNumber cs).rest (readNumber cs).outcome := by
  obtain ⟨c, cs, radix, rfl, hr, heq⟩ | ⟨heq, -⟩ := readNumber_cases cs
  · have hd : ∀ c ∈ cs.takeWhile (isDigitOf radix), isDigitOf radix c = true :=
      List.all_eq_true.1 List.all_takeWhile
    refine ⟨.radix radix (cs.takeWhile (isDigitOf radix)), ?_⟩
    rw [heq]
    refine ⟨.radix hr hd, ?_⟩
    simp only [readRadix, List.drop_succ_cons, List.drop_zero]
    split
    · next hnil =>
      rw [hnil]
      exact .noDigits
    · next hne =>
      split
      · next hn => exact .name hne hn
      · next hn =>
        refine Literal.reads_integer hne (eq_false_of_ne_true hn) ?_
        rw [numberOf_eq_placeValue hr.le_sixteen hd]
        rfl
  · have hs := DecimalParts.split_shaped hs
    rw [heq]
    refine ⟨_, hs.isLiteral, ?_⟩
    simp only [readDecimal]
    split
    · next hm => exact .noPower hm.1 hm.2
    · next hm =>
      have hw : (DecimalParts.split cs).mark ≠ [] → (DecimalParts.split cs).power ≠ [] :=
        fun h h' => hm ⟨h, h'⟩
      split
      · next hn => exact .name hw hn
      · next hn =>
        have hn := eq_false_of_ne_true hn
        split
        · next hf => exact .float hw hn hf
        · next hf =>
          refine Literal.reads_integer hw hn ?_
          rw [numberOf_eq_placeValue (by decide) hs.whole]
          exact if_neg hf

/-- A literal that is read is the longest. -/
theorem IsLiteral.begins (h : IsLiteral text literal) (ht : (readNumber cs).taken = text) :
    BeginsLiteral cs text literal (readNumber cs).rest :=
  ⟨ht ▸ readNumber_append cs, h, fun _ _ h' hp => ht ▸ h'.prefix_taken hp⟩

namespace BeginsLiteral

variable (h : BeginsLiteral cs text literal rest)

include h

theorem startsNumber : startsNumber cs = true :=
  startsNumber_of_isPrefix h.isLiteral.startsNumber ⟨rest, h.append_eq⟩

theorem taken_eq : (readNumber cs).taken = text := by
  obtain ⟨_, hl, -⟩ := exists_literal h.startsNumber
  have hread := h.longest _ _ hl ⟨_, readNumber_append cs⟩
  have htext := h.isLiteral.prefix_taken ⟨_, h.append_eq⟩
  exact hread.eq_of_length_le htext.length_le

/-- The literal with which a text begins is read. -/
theorem reads : literal.Reads text rest (readNumber cs).outcome := by
  obtain ⟨literal', hl, hr⟩ := exists_literal h.startsNumber
  have happend := readNumber_append cs
  rw [h.taken_eq] at hl hr happend
  obtain rfl := hl.unique h.isLiteral
  have hrest : (readNumber cs).rest = rest :=
    List.append_cancel_left (happend.trans h.append_eq.symm)
  rwa [hrest] at hr

end BeginsLiteral

end ArithLang
