import ArithLang.Text.Alphabetic
import ArithLang.Text.Numeric

/-! The characters that names are made of. -/

namespace ArithLang.Text

def isIdentifierStart (c : Char) : Bool :=
  c == '$' || c == '_' || isAlphabetic c

/-- A character after the first: also number characters and the two joiners of width zero. -/
def isIdentifierChar (c : Char) : Bool :=
  isIdentifierStart c || isNumeric c || c == '\u200c' || c == '\u200d'

theorem isIdentifierChar_of_start {c : Char} (h : isIdentifierStart c = true) :
    isIdentifierChar c = true := by
  simp [isIdentifierChar, h]

end ArithLang.Text
