import ArithLang.Number.Binary64
import ArithLang.Number.Digit

/-!
Decimal numerals: digits before and after a point and a power of ten, as they are written. The value
of a numeral is its digits as one whole number, moved by its exponent less the digits after the point.
-/

namespace ArithLang

structure Numeral where
  negative : Bool := false
  whole : List Char := []
  fraction : List Char := []
  exponent : Option Int := none
  deriving DecidableEq, Repr, Inhabited

namespace Numeral

def exponentText (e : Int) : List Char :=
  'e' :: (if e < 0 then '-' else '+') :: Nat.toDigits 10 e.natAbs

/-- A point stands only before digits. -/
def text (n : Numeral) : List Char :=
  (if n.negative then ['-'] else []) ++ n.whole ++
    (if n.fraction = [] then [] else '.' :: n.fraction) ++
    n.exponent.elim [] exponentText

def isInteger (n : Numeral) : Bool :=
  n.fraction.isEmpty && n.exponent.isNone

/-- The number nearest to the value of a numeral, its sign apart. -/
def nearest (n : Numeral) : Binary64 :=
  .ofDecimal (numberOf 10 (n.whole ++ n.fraction)) (n.exponent.getD 0 - n.fraction.length)

end Numeral

end ArithLang
