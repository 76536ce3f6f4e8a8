import ArithLang.Cursor
import ArithLang.Expr
import ArithLang.Options
import ArithLang.SyntaxError

/-!
Parsing steps: functions of a parser that answer a value or an error and leave a parser behind, also
when they fail.
-/

namespace ArithLang

structure Parser (C : Type) where
  cursor : C
  context : Context
  /-- The offset at which an arrow function could start, as the last assignment-level step saw it. -/
  arrowStart : Option Nat := none

abbrev Step (C : Type) := EStateM SyntaxError (Parser C)

namespace Step

variable {C : Type} [TokenCursor C] {α : Type}

def current : Step C Token :=
  return TokenCursor.current (← get).cursor

def startPosition : Step C Position :=
  return (← current).start

def remaining : Step C Nat :=
  return TokenCursor.remaining (← get).cursor

def context : Step C Context :=
  return (← get).context

def failAt (fault : SyntaxFault) (offset : Nat) : Step C α :=
  throw (.fault fault offset)

/-- Fails at the current token. -/
def failHere (fault : SyntaxFault) : Step C α := do
  failAt fault (← startPosition).offset

def unexpected (expected : String) : Step C α := do
  failHere (.unexpected expected (.ofList (← current).description))

def looksAt (kind : Kind) : Step C Bool :=
  return (← current).kind == kind

def advance : Step C Unit := do
  let parser ← get
  match TokenCursor.advance parser.cursor with
  | (.ok _, cursor) => set { parser with cursor }
  | (.error error, cursor) =>
    set { parser with cursor }
    throw (.lexical error)

/-- Passes the current token if it is of this kind, and tells whether it was. -/
def eat (kind : Kind) : Step C Bool := do
  if ← looksAt kind then
    advance
    return true
  else return false

def expect (kind : Kind) : Step C Unit := do
  if ← eat kind then return () else unexpected s!"'{kind.label}'"

/-- The span from a start to where the last token stopped. -/
def spanFrom (start : Position) : Step C Span :=
  return { start, stop := TokenCursor.lastStop (← get).cursor }

def infoFrom (start : Position) (extra : Extra) : Step C Info :=
  return { span := ← spanFrom start, extra }

/-- The operator that the current token's text names in a family. -/
def operator (ofText? : String → Option α) : Step C α := do
  match (← current).value.text?.bind ofText? with
  | some op => return op
  | none => unexpected "operator"

/-- Whether a statement could end before the current token. -/
def canEndStatement : Step C Bool := do
  let parser ← get
  let kind := (TokenCursor.current parser.cursor).kind
  return parser.context.statementTerminators &&
    (kind == .eof || kind == .braceR || TokenCursor.hasLineBreakBefore parser.cursor)

/-- A token that begins with a name or a parenthesis could begin an arrow function. -/
def markArrowStart (token : Token) : Step C Unit :=
  if token.kind == .parenL || token.kind == .name then
    modify fun parser => { parser with arrowStart := some token.start.offset }
  else return ()

/-- Refuses an expression that nothing can be assigned to. -/
def checkTarget (e : Expr) (place : String) : Step C Unit :=
  if e.isAssignable then return () else failAt (.invalidTarget place) e.span.start.offset

end Step

end ArithLang
