import ArithLang.Number
import ArithLang.Position
import ArithLang.Token.Kind

/-! Tokens: a kind, the value it carries and the stretch of text it covers. -/

namespace ArithLang

/-- Operators and words carry their text, number literals their number, all else nothing. -/
inductive Value
  | none
  | number : Number → Value
  | text : String → Value
  deriving DecidableEq, Repr, Inhabited

namespace Value

def text? : Value → Option String
  | text s => some s
  | _ => Option.none

def number? : Value → Option Number
  | number n => some n
  | _ => Option.none

def display : Value → List Char
  | none => []
  | number n => n.text
  | text s => s.toList

end Value

structure Token where
  kind : Kind := .eof
  value : Value := .none
  start : Position := {}
  stop : Position := {}
  deriving DecidableEq, Repr, Inhabited

namespace Token

def display (token : Token) : List Char :=
  match token.value with
  | .none => token.kind.label.toList
  | value => token.kind.label.toList ++ '(' :: value.display ++ [')']

/-- How a message names the token that was found. -/
def description (token : Token) : List Char :=
  match token.value with
  | .text s => '\x27' :: s.toList ++ ['\x27']
  | .number n => n.text
  | .none =>
    if token.kind = .eof then "end of input".toList
    else '\x27' :: token.kind.label.toList ++ ['\x27']

end Token

end ArithLang
