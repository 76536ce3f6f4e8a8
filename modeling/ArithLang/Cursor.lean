import ArithLang.Token
import ArithLang.LexError

/-!
Cursors: what a parser sees of its tokens. A cursor stands on a token, knows where the token before it
stopped, and moves forward one token at a time. A move may fail; the cursor it leaves behind is then
part of the answer.
-/

namespace ArithLang

class TokenCursor (C : Type) where
  current : C → Token
  /-- Where the token before the current one stopped. -/
  lastStop : C → Position
  advance : C → Except LexError Unit × C
  input : C → List Char
  /-- A bound on the number of tokens from the current one on. -/
  remaining : C → Nat

namespace TokenCursor

variable {C : Type} [TokenCursor C]

/-- Whether the text between the last token and the current one holds a line break. -/
def hasLineBreakBefore (cursor : C) : Bool :=
  (Text.slice? (input cursor) (lastStop cursor).offset (current cursor).start.offset).any
    Text.containsLineBreak

end TokenCursor

end ArithLang
