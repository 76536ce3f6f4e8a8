import ArithLang.Expr
import ArithLang.Json.Number

/-!
Trees as JSON: the kind, the node's own fields, then where it stands, then how it was written. Of the
latter only what is set is written, and nothing at all if nothing is.
-/

namespace ArithLang

def optionalField {α : Type} (key : String) (write : α → Json) : Option α → List (String × Json)
  | some a => [(key, write a)]
  | none => []

def Position.toJson (position : Position) : Json :=
  .object [("line", .ofNat position.line), ("column", .ofNat position.column)]

def Span.locationJson (span : Span) : Json :=
  .object [("start", span.start.toJson), ("end", span.stop.toJson)]

def Extra.toJson (extra : Extra) : Json :=
  .object <|
    (if extra.parenthesized then [("parenthesized", .bool true)] else []) ++
      optionalField "parenStart" Json.ofNat extra.parenStart ++
      optionalField "parenthesizedArgument" Json.bool extra.parenthesizedArgument ++
      optionalField "raw" Json.string extra.raw ++
      optionalField "rawValue" Number.toJson extra.rawValue

def Info.fields (info : Info) : List (String × Json) :=
  [("start", .ofNat info.span.start.offset), ("end", .ofNat info.span.stop.offset),
    ("loc", info.span.locationJson)] ++
    (if info.extra = {} then [] else [("extra", info.extra.toJson)])

namespace Expr

def node (kind : String) (own : List (String × Json)) (info : Info) : Json :=
  .object (("type", .string kind) :: own ++ info.fields)

mutual

def toJson : Expr → Json
  | number value i => node "NumericLiteral" [("value", value.toJson)] i
  | identifier name i => node "Identifier" [("name", .string name)] i
  | member object property computed i =>
    node "MemberExpression"
      [("object", object.toJson), ("property", property.toJson), ("computed", .bool computed)] i
  | sequence items i => node "SequenceExpression" [("expressions", .array (toJsonList items))] i
  | assignment op left right i =>
    node "AssignmentExpression"
      [("operator", .string op.text), ("left", left.toJson), ("right", right.toJson)] i
  | conditional test consequent alternate i =>
    node "ConditionalExpression"
      [("test", test.toJson), ("consequent", consequent.toJson), ("alternate", alternate.toJson)] i
  | logical op left right i =>
    node "LogicalExpression"
      [("left", left.toJson), ("operator", .string op.text), ("right", right.toJson)] i
  | binary op left right i =>
    node "BinaryExpression"
      [("left", left.toJson), ("operator", .string op.text), ("right", right.toJson)] i
  | unary op isPrefix argument i =>
    node "UnaryExpression"
      [("operator", .string op.text), ("prefix", .bool isPrefix), ("argument", argument.toJson)] i
  | update op isPrefix argument i =>
    node "UpdateExpression"
      [("operator", .string op.text), ("prefix", .bool isPrefix), ("argument", argument.toJson)] i

def toJsonList : List Expr → List Json
  | [] => []
  | item :: items => item.toJson :: toJsonList items

end

/-- A node without its children. -/
def summary (e : Expr) : Json :=
  .object
    [("kind", .string e.kindName),
      ("range", .array [.ofNat e.span.start.offset, .ofNat e.span.stop.offset]),
      ("loc", e.span.locationJson), ("extra", e.extra.toJson),
      ("parenthesized", .bool e.isParenthesized)]

end Expr

end ArithLang
