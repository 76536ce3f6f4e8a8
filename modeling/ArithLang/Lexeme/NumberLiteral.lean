import ArithLang.Lexeme.Reading
import ArithLang.Text.Identifier

/-!
Number literals: decimal integers and floats, and integers in radix 16 or 2. A literal takes all it
can; a name directly after it is an error, and integers must fit 64 bits with a sign.
-/

namespace ArithLang

def startsName (cs : List Char) : Bool :=
  cs.head?.any Text.isIdentifierStart

def integerOutcome (value : Nat) : Except LexError (Kind × Value) :=
  if maxInt64 < value then .error ⟨.numberOutOfRange, 0⟩
  else .ok (.num, .number (.int (.ofNat value)))

/-- Reads a literal whose first two characters name its radix. -/
def readRadix (radix : Nat) (cs : List Char) : Reading :=
  let digits := (cs.drop 2).takeWhile (isDigitOf radix)
  let rest := (cs.drop 2).dropWhile (isDigitOf radix)
  let taken := cs.take 2 ++ digits
  { taken, rest
    outcome :=
      if digits = [] then .error ⟨.missingDigits radix, 2⟩
      else if startsName rest then .error ⟨.nameAfterNumber, Text.byteLength taken⟩
      else integerOutcome (numberOf radix digits) }

/-- A decimal literal in its parts: digits, point, digits, exponent mark with its sign, digits. -/
structure DecimalParts where
  whole : List Char
  point : List Char
  fraction : List Char
  mark : List Char
  power : List Char
  rest : List Char

def exponentMark : List Char → List Char
  | e :: sign :: _ =>
    if e = 'e' ∨ e = 'E' then
      if sign = '+' ∨ sign = '-' then [e, sign] else [e]
    else []
  | [e] => if e = 'e' ∨ e = 'E' then [e] else []
  | [] => []

namespace DecimalParts

def split (cs : List Char) : DecimalParts :=
  let whole := cs.takeWhile (isDigitOf 10)
  let cs := cs.dropWhile (isDigitOf 10)
  let point := if cs.head? = some '.' then ['.'] else []
  let cs := cs.drop point.length
  let fraction := if point = [] then [] else cs.takeWhile (isDigitOf 10)
  let cs := cs.drop fraction.length
  let mark := exponentMark cs
  let cs := cs.drop mark.length
  let power := if mark = [] then [] else cs.takeWhile (isDigitOf 10)
  { whole, point, fraction, mark, power, rest := cs.drop power.length }

def taken (parts : DecimalParts) : List Char :=
  parts.whole ++ parts.point ++ parts.fraction ++ parts.mark ++ parts.power

def isFloat (parts : DecimalParts) : Bool :=
  !parts.point.isEmpty || !parts.mark.isEmpty

def numeral (parts : DecimalParts) : Numeral where
  whole := parts.whole
  fraction := parts.fraction
  exponent :=
    let power : Int := numberOf 10 parts.power
    if parts.mark = [] then none
    else some (if parts.mark.contains '-' then -power else power)

end DecimalParts

/-- Reads a decimal literal, which may begin with its point. -/
def readDecimal (cs : List Char) : Reading :=
  let parts := DecimalParts.split cs
  { taken := parts.taken
    rest := parts.rest
    outcome :=
      if parts.mark ≠ [] ∧ parts.power = [] then .error ⟨.invalidNumber, 0⟩
      else if startsName parts.rest then .error ⟨.nameAfterNumber, Text.byteLength parts.taken⟩
      else if parts.isFloat then .ok (.num, .number (.float parts.numeral.nearest))
      else integerOutcome (numberOf 10 parts.whole) }

/-- Whether a text begins with a digit, or with a point and a digit. -/
def startsNumber : List Char → Bool
  | '.' :: c :: _ => isDigitOf 10 c
  | c :: _ => isDigitOf 10 c
  | [] => false

def readNumber : List Char → Reading
  | cs@('0' :: c :: _) =>
    if c = 'x' ∨ c = 'X' then readRadix 16 cs
    else if c = 'b' ∨ c = 'B' then readRadix 2 cs
    else readDecimal cs
  | cs => readDecimal cs

end ArithLang
