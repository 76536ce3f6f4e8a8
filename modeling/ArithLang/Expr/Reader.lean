import ArithLang.Expr
import ArithLang.Json.Number
import ArithLang.Json.Reader

/-!
Trees from JSON. Every field of a node must be there once, but those of `extra` may be absent; other
fields mean nothing. Positions and `extra` may be arrays of their fields in order. A node below
another may give its kind by number.
-/

namespace ArithLang

namespace Json

/-- An operator: its text, or an object with that one key and nothing in it. -/
def named? {α : Type} (ofText? : String → Option α) : Json → Option α
  | string s => ofText? s
  | object [(s, null)] | object [(s, object [])] => ofText? s
  | _ => none

/-- A pair of values under two keys, or in an array. -/
def pair? {α : Type} (first second : String) (read : Json → Option α) : Json → Option (α × α)
  | object fields => do return (← read (← only? first fields), ← read (← only? second fields))
  | array [a, b] => do return (← read a, ← read b)
  | _ => none

/-- A line with its column. -/
def place? : Json → Option (Nat × Nat) :=
  pair? "line" "column" nat?

def span? (fields : List (String × Json)) : Option Span := do
  let start ← nat? (← only? "start" fields)
  let stop ← nat? (← only? "end" fields)
  let (first, last) ← pair? "start" "end" place? (← only? "loc" fields)
  return { start := ⟨start, first.1, first.2⟩, stop := ⟨stop, last.1, last.2⟩ }

/-- Reads an optional field, which keeps its default if absent. -/
def orDefault? {α : Type} (read : Json → Option α) (default : α) (field : Option Json) : Option α :=
  field.elim (some default) read

/-- Reads `extra` from its five fields in order, each present or absent. -/
def extraOf? (field : Nat → Option Json) : Option Extra := do
  return {
    parenthesized := ← orDefault? bool? false (field 0)
    parenStart := ← orDefault? (orNull nat?) none (field 1)
    parenthesizedArgument := ← orDefault? (orNull bool?) none (field 2)
    raw := ← orDefault? (orNull string?) none (field 3)
    rawValue := ← orDefault? (orNull number?) none (field 4) }

def extraKeys : List String :=
  ["parenthesized", "parenStart", "parenthesizedArgument", "raw", "rawValue"]

def extra? : Json → Option Extra
  | object fields => do
    let found ← extraKeys.mapM (atMostOnce? · fields)
    extraOf? fun n => (found[n]?).join
  | array items => if items.length ≤ extraKeys.length then extraOf? (items[·]?) else none
  | _ => none

def info? (fields : List (String × Json)) : Option Info := do
  return {
    span := ← span? fields
    extra := ← orDefault? extra? {} (← atMostOnce? "extra" fields) }

end Json

namespace Expr

open Json

def kindNames : List String :=
  ["NumericLiteral", "Identifier", "MemberExpression", "SequenceExpression", "AssignmentExpression",
    "ConditionalExpression", "LogicalExpression", "BinaryExpression", "UnaryExpression",
    "UpdateExpression"]

/-- The kind of a node, by name or, below another node, by number. -/
def kindName? (nested : Bool) : Json → Option String
  | .string s => some s
  | json => if nested then do kindNames[← json.nat?]? else none

/-- Reads a node of a kind, given how its children are read. -/
def ofFields? (child : Json → Option Expr) (kind : String) (fields : List (String × Json)) :
    Option Expr := do
  let field (key : String) := only? key fields
  let i ← info? fields
  match kind with
  | "NumericLiteral" => return number (← (← field "value").number?) i
  | "Identifier" => return identifier (← (← field "name").string?) i
  | "MemberExpression" =>
    return member (← child (← field "object")) (← child (← field "property"))
      (← (← field "computed").bool?) i
  | "SequenceExpression" =>
    match ← field "expressions" with
    | .array items => return sequence (← items.mapM child) i
    | _ => none
  | "AssignmentExpression" =>
    return assignment (← named? AssignOp.ofText? (← field "operator")) (← child (← field "left"))
      (← child (← field "right")) i
  | "ConditionalExpression" =>
    return conditional (← child (← field "test")) (← child (← field "consequent"))
      (← child (← field "alternate")) i
  | "LogicalExpression" =>
    return logical (← named? LogicalOp.ofText? (← field "operator")) (← child (← field "left"))
      (← child (← field "right")) i
  | "BinaryExpression" =>
    return binary (← named? BinaryOp.ofText? (← field "operator")) (← child (← field "left"))
      (← child (← field "right")) i
  | "UnaryExpression" =>
    return unary (← named? UnaryOp.ofText? (← field "operator")) (← (← field "prefix").bool?)
      (← child (← field "argument")) i
  | "UpdateExpression" =>
    return update (← named? UpdateOp.ofText? (← field "operator")) (← (← field "prefix").bool?)
      (← child (← field "argument")) i
  | _ => none

/-- Reads a tree of at most so many levels. -/
def ofJson? : (levels : Nat) → (nested : Bool) → Json → Option Expr
  | levels + 1, nested, .object fields => do
    let kind ← kindName? nested (← only? "type" fields)
    ofFields? (ofJson? levels true) kind fields
  | _, _, _ => none

/-- How deep the containers of a JSON text may nest. -/
def maxDepth : Nat := 127

/-- Reads a tree from JSON text. All of the text must be sound, also what the tree does not need. -/
def ofText? (cs : List Char) : Option Expr := do
  let json ← Json.read? cs
  if json.isSound maxDepth then ofJson? maxDepth false json else none

end Expr

end ArithLang
