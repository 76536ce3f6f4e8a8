import ArithLang.Number.Numeral

/-!
JSON values as they are written: numbers keep their digits, objects keep all their keys in order.
-/

namespace ArithLang

inductive Json
  | null
  | bool : Bool → Json
  | number : Numeral → Json
  | string : String → Json
  | array : List Json → Json
  | object : List (String × Json) → Json
  /-- A string, or an object with a key, that holds half of a surrogate pair and so is no text. -/
  | unpaired
  deriving Repr, Inhabited

namespace Json

/-- The value of a key that must occur exactly once. -/
def only? (key : String) (fields : List (String × Json)) : Option Json :=
  match fields.filter (·.1 == key) with
  | [(_, value)] => some value
  | _ => none

/-- The value of a key that may be absent but not repeated. -/
def atMostOnce? (key : String) (fields : List (String × Json)) : Option (Option Json) :=
  match fields.filter (·.1 == key) with
  | [] => some none
  | [(_, value)] => some (some value)
  | _ => none

def bool? : Json → Option Bool
  | bool b => some b
  | _ => none

def string? : Json → Option String
  | string s => some s
  | _ => none

/-- Reads `null` as absent. -/
def orNull {α : Type} (read : Json → Option α) : Json → Option (Option α)
  | null => some none
  | value => (read value).map some

def ofInt (n : Int) : Json :=
  number { negative := n < 0, whole := Nat.toDigits 10 n.natAbs }

def ofNat (n : Nat) : Json := ofInt n

end Json

end ArithLang
