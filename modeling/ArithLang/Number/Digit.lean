/-! Digits of a radix up to sixteen, letters of either case, and the numbers they spell. -/

namespace ArithLang

def digitValue? (radix : Nat) (c : Char) : Option Nat :=
  let value :=
    if c.isDigit then c.toNat - '0'.toNat
    else if 'a' ≤ c ∧ c ≤ 'f' then c.toNat - 'a'.toNat + 10
    else if 'A' ≤ c ∧ c ≤ 'F' then c.toNat - 'A'.toNat + 10
    else 16
  if value < radix ∧ value < 16 then some value else none

def isDigitOf (radix : Nat) (c : Char) : Bool :=
  (digitValue? radix c).isSome

/-- The number that digits spell, the most significant first. -/
def numberOf (radix : Nat) (digits : List Char) : Nat :=
  digits.foldl (fun n c => n * radix + (digitValue? radix c).getD 0) 0

@[simp] theorem numberOf_nil (radix : Nat) : numberOf radix [] = 0 := rfl

theorem numberOf_concat (radix : Nat) (digits : List Char) (c : Char) :
    numberOf radix (digits ++ [c]) =
      numberOf radix digits * radix + (digitValue? radix c).getD 0 := by
  simp [numberOf]

end ArithLang
