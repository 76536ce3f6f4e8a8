import ArithLang.SyntaxError

/-! What can stop the reading of a source, from the file on. -/

namespace ArithLang

inductive Failure
  | lexical : LexError → Failure
  | syntactic : SyntaxError → Failure
  | file : String → Failure
  | other : String → Failure
  deriving DecidableEq, Repr, Inhabited

namespace Failure

/-- The offset of a failure that belongs to a place of the source. -/
def offset? : Failure → Option Nat
  | lexical error => some error.offset
  | syntactic error => some error.offset
  | file _ | other _ => none

def message : Failure → String
  | lexical error => "lexical error: " ++ error.message
  | syntactic error => "syntax error: " ++ error.message
  | file text => "file error: " ++ text
  | other text => text

end Failure

end ArithLang
