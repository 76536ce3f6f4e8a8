/-! What can be wrong with a text before it is a list of tokens, and where. -/

namespace ArithLang

inductive LexFault
  | unexpectedCharacter : Char → LexFault
  | invalidNumber
  | missingDigits : (radix : Nat) → LexFault
  | nameAfterNumber
  | numberOutOfRange
  | badEscape
  | missingUnicodeEscape
  | invalidUnicodeEscape
  | codePointOutOfBounds
  | commentInModule
  deriving DecidableEq, Repr, Inhabited

structure LexError where
  fault : LexFault
  offset : Nat
  deriving DecidableEq, Repr, Inhabited

namespace LexError

def message (error : LexError) : String :=
  let place := s!"at offset {error.offset}"
  match error.fault with
  | .unexpectedCharacter c => s!"unexpected character '{c}' {place}"
  | .invalidNumber => s!"invalid number {place}"
  | .missingDigits radix => s!"expected number in radix {radix} {place}"
  | .nameAfterNumber => s!"identifier directly after number {place}"
  | .numberOutOfRange => s!"number literal out of range {place}"
  | .badEscape => s!"bad character escape sequence {place}"
  | .missingUnicodeEscape => s!"expecting Unicode escape sequence \\uXXXX {place}"
  | .invalidUnicodeEscape => s!"invalid Unicode escape {place}"
  | .codePointOutOfBounds => s!"code point out of bounds {place}"
  | .commentInModule => s!"HTML-style comment is not allowed in module code (offset {error.offset})"

/-- The note at the marked character. -/
def label (error : LexError) : String :=
  match error.fault with
  | .unexpectedCharacter _ => "this character cannot start a token"
  | .nameAfterNumber => "separate the number from this name"
  | .commentInModule => "comment starts here"
  | _ => "malformed literal"

/-- The same error in a longer text, `offset` bytes further on. -/
def shift (error : LexError) (offset : Nat) : LexError :=
  { error with offset := error.offset + offset }

end LexError

end ArithLang
