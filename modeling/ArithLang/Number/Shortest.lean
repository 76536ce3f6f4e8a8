import ArithLang.Number.Numeral

/-!
The fewest decimal digits that read back as a given number. The numbers that round to `x` form an
interval around it. Among the multiples of a power of ten only the two neighbours of `x` need be
tried; the coarsest power of ten with a neighbour in the interval gives the digits, of two such
neighbours the nearer, and an exact tie is for the style to settle.
-/

namespace ArithLang

/-- How a float is written: which of two equally near digit strings is taken, which decimal exponents
of the leading digit are written out by position, and whether a whole number keeps its point. -/
structure FloatStyle where
  tieUp : Bool
  positional : Int → Bool
  keepPoint : Bool

structure Decimal where
  digits : Nat
  exponent : Int
  deriving DecidableEq, Repr

namespace Binary64

/-- The interval of a number: its lower end, the number and its upper end as numerators of one
denominator, and whether the ends belong to it. -/
structure Interval where
  low : Nat
  mid : Nat
  high : Nat
  den : Nat
  closed : Bool

/-- A power of two has its lower neighbour at half the usual distance. -/
def interval (x : Binary64) : Interval :=
  let m := x.significand
  let below := if x.fraction = 0 ∧ 1 < x.biasedExponent then 1 else 2
  let unit := unscale 1 1 (2 - x.exponent)
  { low := (4 * m - below) * unit.1
    mid := 4 * m * unit.1
    high := (4 * m + 2) * unit.1
    den := unit.2
    closed := m % 2 == 0 }

namespace Interval

def holds (i : Interval) (n : Nat) : Bool :=
  if i.closed then i.low ≤ n && n ≤ i.high else i.low < n && n < i.high

/-- The interval on the grid of the multiples of 10 ^ `k`. -/
def onGrid (i : Interval) (k : Int) : Interval :=
  if 0 ≤ k then { i with den := i.den * Nat.pow 10 k.toNat }
  else
    let scale := Nat.pow 10 (-k).toNat
    { i with low := i.low * scale, mid := i.mid * scale, high := i.high * scale }

/-- The neighbour of the number on the grid of whole numbers that lies in the interval. -/
def neighbour? (i : Interval) (tieUp : Bool) : Option Nat :=
  let d := i.mid / i.den
  match i.holds (d * i.den), i.holds ((d + 1) * i.den) with
  | true, true =>
    let below := i.mid - d * i.den
    let above := (d + 1) * i.den - i.mid
    if below < above then some d
    else if above < below then some (d + 1)
    else if tieUp then some (d + 1)
    else some (d + d % 2)
  | true, false => some d
  | false, true => some (d + 1)
  | false, false => none

/-- Tries ever finer grids from 10 ^ `k` on. -/
def search (i : Interval) (tieUp : Bool) : Nat → Int → Decimal
  | 0, k => ⟨(i.onGrid k).mid / (i.onGrid k).den, k⟩
  | fuel + 1, k =>
    match (i.onGrid k).neighbour? tieUp with
    | some d => ⟨d, k⟩
    | none => i.search tieUp fuel (k - 1)

end Interval

/-- The shortest decimal of a finite number other than zero. Seventeen digits always suffice, and the
first grid tried is at most two too coarse. -/
def shortest (x : Binary64) (tieUp : Bool) : Decimal :=
  let magnitude : Int := x.significand.log2 + x.exponent
  x.interval.search tieUp 22 ((magnitude + 1) * 30103 / 100000 + 1)

end Binary64

namespace FloatStyle

/-- The digits with their point put in place. -/
def place (style : FloatStyle) (digits : List Char) (exponent : Int) : Numeral :=
  let leading := exponent + digits.length - 1
  if style.positional leading then
    if 0 ≤ exponent then
      { whole := digits ++ List.replicate exponent.toNat '0'
        fraction := if style.keepPoint then ['0'] else [] }
    else if 0 ≤ leading then
      { whole := digits.take (leading + 1).toNat, fraction := digits.drop (leading + 1).toNat }
    else
      { whole := ['0'], fraction := List.replicate (-leading - 1).toNat '0' ++ digits }
  else { whole := digits.take 1, fraction := digits.drop 1, exponent := some leading }

/-- The numeral of a finite number. -/
def numeral (style : FloatStyle) (x : Binary64) : Numeral :=
  let body :=
    if x.isZero then style.place ['0'] 0
    else
      let decimal := x.shortest style.tieUp
      style.place (Nat.toDigits 10 decimal.digits) decimal.exponent
  { body with negative := x.isNegative }

end FloatStyle

end ArithLang
