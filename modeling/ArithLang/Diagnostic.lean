import ArithLang.Failure
import ArithLang.Text

/-!
Diagnostics: a message, the stretch of a source it is about, and notes. The stretch is the one
character at the failure's offset, and empty at the end of the source.
-/

namespace ArithLang

structure Label where
  file : Nat
  start : Nat
  stop : Nat
  message : String
  deriving DecidableEq, Repr

structure Diagnostic where
  message : String
  label : Option Label := none
  notes : List String := []
  deriving DecidableEq, Repr

namespace Diagnostic

/-- The character at an offset, as a stretch; an offset past the end stands for the end. -/
def labelAt (file : Nat) (source : List Char) (offset : Nat) (message : String) : Label :=
  let start := min offset (Text.byteLength source)
  let width := ((Text.from? source start).bind List.head?).elim 0 Char.utf8Size
  { file, start, stop := start + width, message }

def ofLexError (file : Nat) (source : List Char) (error : LexError) : Diagnostic where
  message := (Failure.lexical error).message
  label := some (labelAt file source error.offset error.label)

/-- What is written at the marked character of a syntax error. -/
def faultLabel : SyntaxFault → String
  | .ambiguousPower => "operand of a unary operator"
  | .invalidTarget _ => "only names and subscripts can be assigned"
  | _ => ""

def faultNotes : SyntaxFault → List String
  | .ambiguousPower => ["write \x60(-x) ** y\x60 or \x60-(x ** y)\x60 to make the intent explicit"]
  | _ => []

/-- A lexical error is shown as such, also where a parser met it. -/
def ofFailure (file : Nat) (source : List Char) : Failure → Diagnostic
  | .lexical error | .syntactic (.lexical error) => ofLexError file source error
  | .syntactic (.fault fault offset) =>
    { message := (Failure.syntactic (.fault fault offset)).message
      label := some (labelAt file source offset (faultLabel fault))
      notes := faultNotes fault }
  | failure => { message := failure.message }

end Diagnostic

end ArithLang
