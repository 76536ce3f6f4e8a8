/-!
Binary floating-point numbers of 64 bits, without NaN. A finite one is ±`significand` · 2 ^ `exponent`;
`ofRatio` rounds any fraction to the nearest of them, a half to the even neighbour, so that products,
quotients and decimals are all rounded by the same rule.
-/

namespace ArithLang

structure Binary64 where
  bits : UInt64
  deriving DecidableEq, Repr, Inhabited

namespace Binary64

def zero : Binary64 := ⟨0⟩

def infinity : Binary64 := ⟨0x7ff0000000000000⟩

/-- The leading bit of a significand, which only the smallest numbers lack: 2 ^ 52. -/
def hiddenBit : Nat := 0x10000000000000

def isNegative (x : Binary64) : Bool := 0x8000000000000000 ≤ x.bits.toNat

def biasedExponent (x : Binary64) : Nat := x.bits.toNat / hiddenBit % 0x800

def fraction (x : Binary64) : Nat := x.bits.toNat % hiddenBit

def isFinite (x : Binary64) : Bool := x.biasedExponent != 0x7ff

def isZero (x : Binary64) : Bool := x.biasedExponent == 0 && x.fraction == 0

def significand (x : Binary64) : Nat :=
  if x.biasedExponent = 0 then x.fraction else x.fraction + hiddenBit

def exponent (x : Binary64) : Int := max x.biasedExponent 1 - 1075

def neg (x : Binary64) : Binary64 := ⟨x.bits ^^^ 0x8000000000000000⟩

/-- The nearest natural number to a fraction, a half going to the even neighbour. -/
def roundDiv (num den : Nat) : Nat :=
  let q := num / den
  let r := num % den
  if 2 * r < den then q else if den < 2 * r then q + 1 else q + q % 2

/-- The fraction `num / den` divided by 2 ^ `e`. -/
def unscale (num den : Nat) (e : Int) : Nat × Nat :=
  if 0 ≤ e then (num, den * Nat.pow 2 e.toNat) else (num * Nat.pow 2 (-e).toNat, den)

/-- The nearest number to a fraction; beyond the largest finite one it is infinite. -/
def ofRatio (num den : Nat) : Binary64 :=
  if num = 0 then zero
  else
    let guess : Int := num.log2 - den.log2
    let (n, d) := unscale num den guess
    let top := if d ≤ n then guess else guess - 1
    let e := max (top - 52) (-1074)
    let (n, d) := unscale num den e
    ⟨.ofNat (min ((e + 1074).toNat * hiddenBit + roundDiv n d) infinity.bits.toNat)⟩

/-- The nearest number to `digits` · 10 ^ `e`. -/
def ofDecimal (digits : Nat) (e : Int) : Binary64 :=
  if digits = 0 then zero
  else if 400 < e then infinity
  else if e < -(digits.log2 + 400 : Int) then zero
  else if 0 ≤ e then ofRatio (digits * Nat.pow 10 e.toNat) 1
  else ofRatio digits (Nat.pow 10 (-e).toNat)

/-- A finite number without its sign, as a fraction. -/
def toRatio (x : Binary64) : Nat × Nat :=
  unscale x.significand 1 (-x.exponent)

/-- The product of two finite numbers that are not negative. -/
def mul (x y : Binary64) : Binary64 :=
  ofRatio (x.toRatio.1 * y.toRatio.1) (x.toRatio.2 * y.toRatio.2)

/-- The quotient of two finite numbers that are not negative, the second not zero. -/
def div (x y : Binary64) : Binary64 :=
  ofRatio (x.toRatio.1 * y.toRatio.2) (x.toRatio.2 * y.toRatio.1)

end Binary64

end ArithLang
