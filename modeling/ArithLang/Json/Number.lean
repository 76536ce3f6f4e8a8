import ArithLang.Json
import ArithLang.Number

/-!
Numbers in JSON. A number is an integer if it is written as one and fits 64 bits with a sign, and a
float otherwise. A float is read in two roundings: as many leading digits as 64 bits hold, then one
product or quotient with a power of ten; a number too large for that is refused.
-/

namespace ArithLang

namespace Number

/-- JSON text keeps the point of a whole float and leaves fixed notation outside ten to the power of
-5 to 15; a tie goes to the even digit. -/
def jsonStyle : FloatStyle where
  tieUp := false
  positional e := -5 ≤ e && e ≤ 15
  keepPoint := true

/-- There is no JSON number for infinity. -/
def toJson : Number → Json
  | .int n => .ofInt n.toInt
  | .float x => if x.isFinite then .number (jsonStyle.numeral x) else .null

end Number

/-- One more than the largest number of 64 bits: 2 ^ 64. -/
def wordSize : Nat := 0x10000000000000000

namespace Numeral

/-- Appends digits to a number as long as it stays below `wordSize`; also how many digits were left. -/
def gather (n : Nat) : List Char → Nat × Nat
  | [] => (n, 0)
  | c :: cs =>
    let next := n * 10 + (digitValue? 10 c).getD 0
    if next < wordSize then gather next cs else (n, cs.length + 1)

/-- A number times a power of ten, by one product or by at most two quotients. -/
def scale? (x : Binary64) (e : Int) : Option Binary64 :=
  let power (e : Int) : Binary64 := .ofDecimal 1 e
  if x.isZero then some x
  else if 308 < e then none
  else if 0 ≤ e then
    let product := x.mul (power e)
    if product.isFinite then some product else none
  else if -308 ≤ e then some (x.div (power (-e)))
  else if -616 ≤ e then some ((x.div (power 308)).div (power (-e - 308)))
  else some .zero

def float? (n : Numeral) : Option Binary64 :=
  let (whole, skipped) := gather 0 n.whole
  let (digits, ignored) := gather whole n.fraction
  let e : Int := skipped + ignored - n.fraction.length + n.exponent.getD 0
  (scale? (.ofRatio digits 1) e).map fun x => if n.negative then x.neg else x

/-- The number of a JSON numeral. The integer -0 is a float, since no integer has that sign. -/
def number? (n : Numeral) : Option Number :=
  let magnitude := numberOf 10 n.whole
  if n.isInteger && !n.negative && magnitude ≤ maxInt64 then
    some (.int (.ofNat magnitude))
  else if n.isInteger && n.negative && 0 < magnitude && magnitude ≤ maxInt64 + 1 then
    some (.int (.ofInt (-magnitude)))
  else n.float?.map .float

end Numeral

namespace Json

def number? : Json → Option Number
  | number n => n.number?
  | _ => none

/-- A natural number of at most 64 bits, written as an integer without a sign. -/
def nat? : Json → Option Nat
  | number n =>
    let magnitude := numberOf 10 n.whole
    if n.isInteger && !n.negative && magnitude < wordSize then some magnitude else none
  | _ => none

mutual

/-- Whether every number has a value, every string is a text, and containers nest at most so deep. -/
def isSound : Nat → Json → Bool
  | _, null | _, bool _ | _, string _ => true
  | _, number n => n.number?.isSome
  | levels + 1, array items => areSound levels items
  | levels + 1, object fields => haveSound levels fields
  | 0, array _ | 0, object _ => false
  | _, unpaired => false

def areSound (levels : Nat) : List Json → Bool
  | [] => true
  | item :: items => isSound levels item && areSound levels items

def haveSound (levels : Nat) : List (String × Json) → Bool
  | [] => true
  | (_, value) :: fields => isSound levels value && haveSound levels fields

end

end Json

end ArithLang
