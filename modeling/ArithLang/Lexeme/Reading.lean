import ArithLang.LexError
import ArithLang.Token

/-!
The reading of one lexeme at the head of a text. It knows nothing of what stands before, so offsets
in its error count from the head of the text.
-/

namespace ArithLang

structure Reading where
  /-- The characters passed over, also by a reading that fails. -/
  taken : List Char
  rest : List Char
  /-- For a word, whether it holds an escape. -/
  escaped : Option Bool := none
  outcome : Except LexError (Kind × Value)

end ArithLang
