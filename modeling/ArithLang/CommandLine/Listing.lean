import ArithLang.Expr.Writer
import ArithLang.Json.Printer
import ArithLang.Session
import ArithLang.Token.Writer

/-! The answers of the commands as text. -/

namespace ArithLang.Listing

def padLeft (width : Nat) (fill : Char) (n : Nat) : List Char :=
  (Nat.toDigits 10 n).leftpad width fill

def padRight (width : Nat) (n : Nat) : List Char :=
  (Nat.toDigits 10 n).rightpad width ' '

/-- A token with its offsets and the position of its start. -/
def tokenLine (token : Token) : List Char :=
  padLeft 4 ' ' token.start.offset ++ ['.', '.'] ++ padRight 4 token.stop.offset ++
    ' ' :: padLeft 3 ' ' token.start.line ++ ':' :: padRight 3 token.start.column ++
    ' ' :: token.display

def tokensJson (tokens : List Token) : List Char :=
  (Json.array (tokens.map Token.toJson)).pretty

def tree (e : Expr) : List Char :=
  e.toJson.pretty

end ArithLang.Listing
