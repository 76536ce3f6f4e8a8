import ArithLang.Json.Number
import ArithLang.Token

/-! Tokens as JSON. -/

namespace ArithLang

def Value.toJson : Value → Json
  | none => .null
  | number n => n.toJson
  | text s => .string s

def Token.toJson (token : Token) : Json :=
  .object
    [("type", .string token.kind.label), ("value", token.value.toJson),
      ("start", .ofNat token.start.offset), ("end", .ofNat token.stop.offset),
      ("startLine", .ofNat token.start.line), ("startColumn", .ofNat token.start.column),
      ("endLine", .ofNat token.stop.line), ("endColumn", .ofNat token.stop.column)]

end ArithLang
