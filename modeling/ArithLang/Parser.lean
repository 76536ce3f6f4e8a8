import ArithLang.Cursor.Stream
import ArithLang.Cursor.TokenList
import ArithLang.Parser.Grammar

/-! The parser: the grammar closed under nesting, to a fixed depth. -/

namespace ArithLang

/-- How many levels deep assignments, prefix operators and right operands of `**` may nest. -/
def maxNesting : Nat := 64

namespace Nested

variable {C : Type} [TokenCursor C]

/-- The steps that have so many levels of nesting left. -/
def withLevels : Nat → Nested C
  | 0 =>
    { assignment := Step.failHere .nestedTooDeeply
      unary := Step.failHere .nestedTooDeeply
      climb := fun _ _ _ => Step.failHere .nestedTooDeeply }
  | levels + 1 =>
    let inner := withLevels levels
    { assignment := Grammar.assignment inner
      unary := Grammar.unary inner
      climb := fun left start least => do
        Grammar.climb inner start least (← Step.remaining) left }

end Nested

namespace Parser

variable {C : Type} [TokenCursor C]

/-- One expression, commas included. -/
def expression : Step C Expr :=
  Grammar.sequence (Nested.withLevels maxNesting)

/-- One expression that the tokens end after. -/
def expressionToEnd : Step C Expr := do
  let e ← expression
  if ← Step.looksAt .eof then return e else Step.unexpected "end of input"

def ofCursor (cursor : C) (context : Context) : Parser C :=
  { cursor, context }

def ofText? (input : List Char) (options : Options) : Except SyntaxError (Parser TokenStream) :=
  match TokenStream.open? input options with
  | .ok cursor => .ok (ofCursor cursor options.context)
  | .error error => .error (.lexical error)

/-- Runs a step; the parser it leaves is there in either case. -/
def run {α : Type} (parser : Parser C) (step : Step C α) : Except SyntaxError α × Parser C :=
  match step.run parser with
  | .ok a parser => (.ok a, parser)
  | .error error parser => (.error error, parser)

end Parser

/-- A whole text as one expression. -/
def parseExpression (input : List Char) (options : Options) : Except SyntaxError Expr :=
  match Parser.ofText? input options with
  | .ok parser => (parser.run Parser.expressionToEnd).1
  | .error error => .error error

end ArithLang
