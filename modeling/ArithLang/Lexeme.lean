import ArithLang.Lexeme.NumberLiteral
import ArithLang.Lexeme.Symbol
import ArithLang.Lexeme.Word
import ArithLang.Options

/-! The lexeme at the head of a text: a word, a number literal or a symbol; at the end, `eof`. -/

namespace ArithLang

def opensHiddenComment (cs : List Char) : Bool :=
  "<!--".toList.isPrefixOf cs

def startsWord (c : Char) : Bool :=
  Text.isIdentifierStart c || c == '\\'

/-- Reads the lexeme at the head of a text that does not begin with a blank. A comment that was not
passed over before is one that module code does not allow. -/
def readLexeme (options : Options) : List Char → Reading
  | [] => { taken := [], rest := [], outcome := .ok (.eof, .none) }
  | c :: cs =>
    if opensHiddenComment (c :: cs) then
      { taken := [], rest := c :: cs, outcome := .error ⟨.commentInModule, 0⟩ }
    else if startsWord c then readWord (c :: cs)
    else if startsNumber (c :: cs) then readNumber (c :: cs)
    else
      match Symbol.longest? (options.hasPlugin .functionBind) (c :: cs) with
      | some symbol => symbol.read (c :: cs)
      | none => { taken := [], rest := c :: cs, outcome := .error ⟨.unexpectedCharacter c, 0⟩ }

end ArithLang
