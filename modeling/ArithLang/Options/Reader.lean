import ArithLang.Json.Reader
import ArithLang.Options

/-!
Options as JSON. What is absent keeps its default; a repeated field is refused. The fields may also be
an array in order. Other fields are passed over, whatever they hold.
-/

namespace ArithLang

def Plugin.text : Plugin → String
  | .functionBind => "functionBind"

def Plugin.ofText? : String → Option Plugin
  | "functionBind" => some .functionBind
  | _ => none

/-- A plugin by its name, or by an object with that one key and `null`. -/
def Plugin.ofJson? : Json → Option Plugin
  | .string s | .object [(s, .null)] => Plugin.ofText? s
  | _ => none

namespace Options

def toJson (options : Options) : Json :=
  .object
    [("module", .bool options.moduleCode), ("strict", .bool options.strict),
      ("plugins", .array (options.plugins.map fun plugin => .string plugin.text))]

def plugins? : Json → Option (List Plugin)
  | .array items => items.mapM Plugin.ofJson?
  | _ => none

/-- Reads the three fields in order, each present or absent. -/
def ofParts? (moduleCode strict plugins : Option Json) : Option Options := do
  let moduleCode ← moduleCode.elim (some false) Json.bool?
  let strict ← strict.elim (some false) Json.bool?
  let plugins ← plugins.elim (some []) plugins?
  return plugins.foldl withPlugin { moduleCode, strict }

def ofJson? : Json → Option Options
  | .object fields => do
    ofParts? (← Json.atMostOnce? "module" fields) (← Json.atMostOnce? "strict" fields)
      (← Json.atMostOnce? "plugins" fields)
  | .array items =>
    if items.length ≤ 3 then ofParts? items[0]? items[1]? items[2]? else none
  | _ => none

def ofText? (cs : List Char) : Option Options :=
  (Json.read? cs).bind ofJson?

end Options

end ArithLang
