import ArithLang.Text

/-! Blanks: white space within a line and line breaks. -/

namespace ArithLang.Text

def isLineBreak (c : Char) : Bool :=
  c == '\n' || c == '\r' || c == '\u2028' || c == '\u2029'

/-- White space that does not end a line. -/
def isWhitespace (c : Char) : Bool :=
  c == ' ' || c == '\t' || c == '\x0b' || c == '\x0c' || c == '\u00a0' || c == '\u1680' ||
    c == '\u180e' || ('\u2000' ≤ c && c ≤ '\u200a') || c == '\u202f' || c == '\u205f' ||
    c == '\u3000' || c == '\ufeff'

def isBlank (c : Char) : Bool :=
  isWhitespace c || isLineBreak c

def containsLineBreak (cs : List Char) : Bool :=
  cs.any isLineBreak

@[simp] theorem containsLineBreak_nil : containsLineBreak [] = false := rfl

@[simp] theorem containsLineBreak_append (s t : List Char) :
    containsLineBreak (s ++ t) = (containsLineBreak s || containsLineBreak t) := by
  simp [containsLineBreak]

/-- The property White_Space, by which a line of input is trimmed. -/
def isSpacing (c : Char) : Bool :=
  ('\t' ≤ c && c ≤ '\x0d') || c == ' ' || c == '\u0085' || c == '\u00a0' || c == '\u1680' ||
    ('\u2000' ≤ c && c ≤ '\u200a') || c == '\u2028' || c == '\u2029' || c == '\u202f' ||
    c == '\u205f' || c == '\u3000'

def trim (cs : List Char) : List Char :=
  ((cs.dropWhile isSpacing).reverse.dropWhile isSpacing).reverse

end ArithLang.Text
