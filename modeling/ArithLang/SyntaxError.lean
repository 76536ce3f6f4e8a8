import ArithLang.LexError

/-! What can be wrong with a list of tokens that is no expression, and where. -/

namespace ArithLang

inductive SyntaxFault
  | unexpected : (expected found : String) → SyntaxFault
  | invalidTarget : (place : String) → SyntaxFault
  | deleteOfName
  | ambiguousPower
  | unsupported : (feature : String) → SyntaxFault
  | nestedTooDeeply
  deriving DecidableEq, Repr, Inhabited

inductive SyntaxError
  /-- There is no next token. -/
  | lexical : LexError → SyntaxError
  | fault : SyntaxFault → (offset : Nat) → SyntaxError
  deriving DecidableEq, Repr, Inhabited

namespace SyntaxError

def offset : SyntaxError → Nat
  | lexical error => error.offset
  | fault _ offset => offset

def message : SyntaxError → String
  | lexical error => error.message
  | fault cause offset =>
    match cause with
    | .unexpected expected found =>
      s!"unexpected token {found} at offset {offset}, expected {expected}"
    | .invalidTarget place => s!"invalid left-hand side in {place} at offset {offset}"
    | .deleteOfName => s!"deleting local variable in strict mode at offset {offset}"
    | .ambiguousPower =>
      s!"illegal expression at offset {offset}: wrap left hand side or entire exponentiation in parentheses"
    | .unsupported feature => s!"{feature} is not supported (offset {offset})"
    | .nestedTooDeeply => s!"expression nested too deeply at offset {offset}"

end SyntaxError

end ArithLang
