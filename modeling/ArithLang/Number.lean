import ArithLang.Number.Shortest

/-! The values of number literals. -/

namespace ArithLang

inductive Number
  | int : Int64 → Number
  | float : Binary64 → Number
  deriving DecidableEq, Repr

/-- The largest integer literal, 2 ^ 63 - 1. -/
def maxInt64 : Nat := 0x7fffffffffffffff

namespace Number

/-- Plain text writes every digit by position; a tie goes up. -/
def plainStyle : FloatStyle where
  tieUp := true
  positional _ := true
  keepPoint := false

def floatText (x : Binary64) : List Char :=
  if x.isFinite then (plainStyle.numeral x).text
  else (if x.isNegative then ['-'] else []) ++ "inf".toList

def text : Number → List Char
  | .int n => (toString n.toInt).toList
  | .float x => floatText x

end Number

end ArithLang
