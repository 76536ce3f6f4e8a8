import ArithLang.Json

/-! The text of JSON values, compact or with one item a line. -/

namespace ArithLang.Json

def hexPair (n : Nat) : List Char :=
  [Nat.digitChar (n / 16), Nat.digitChar (n % 16)]

/-- Quotes, backslashes and controls are escaped, all else stands for itself. -/
def escape (c : Char) : List Char :=
  if c = '\x22' ∨ c = '\\' then ['\\', c]
  else if c = '\x08' then ['\\', 'b']
  else if c = '\t' then ['\\', 't']
  else if c = '\n' then ['\\', 'n']
  else if c = '\x0c' then ['\\', 'f']
  else if c = '\r' then ['\\', 'r']
  else if c.toNat < 0x20 then ['\\', 'u', '0', '0'] ++ hexPair c.toNat
  else [c]

def quote (cs : List Char) : List Char :=
  '\x22' :: cs.flatMap escape ++ ['\x22']

def unpairedText : List Char := "\"\\ud800\"".toList

def boolText (b : Bool) : List Char :=
  (if b then "true" else "false").toList

mutual

/-- Writes a value, without spaces, in front of a text. -/
def write (rest : List Char) : Json → List Char
  | null => "null".toList ++ rest
  | bool b => boolText b ++ rest
  | number n => n.text ++ rest
  | string s => quote s.toList ++ rest
  | array items => '[' :: writeItems (']' :: rest) items
  | object fields => '\x7b' :: writeFields ('\x7d' :: rest) fields
  | unpaired => unpairedText ++ rest

def writeItems (rest : List Char) : List Json → List Char
  | [] => rest
  | [item] => write rest item
  | item :: items => write (',' :: writeItems rest items) item

def writeFields (rest : List Char) : List (String × Json) → List Char
  | [] => rest
  | [(key, value)] => quote key.toList ++ ':' :: write rest value
  | (key, value) :: fields =>
    quote key.toList ++ ':' :: write (',' :: writeFields rest fields) value

end

def compact (json : Json) : List Char := write [] json

mutual

theorem write_append (rest more : List Char) :
    (json : Json) → write (rest ++ more) json = write rest json ++ more
  | null | bool _ | number _ | string _ | unpaired => by simp only [write, List.append_assoc]
  | array items => by
    simp only [write, List.cons_append, ← writeItems_append (']' :: rest) more items]
  | object fields => by
    simp only [write, List.cons_append, ← writeFields_append ('\x7d' :: rest) more fields]

theorem writeItems_append (rest more : List Char) :
    (items : List Json) → writeItems (rest ++ more) items = writeItems rest items ++ more
  | [] => by simp only [writeItems]
  | [item] => by simp only [writeItems, write_append rest more item]
  | item :: next :: items => by
    simp only [writeItems, writeItems_append rest more (next :: items),
      ← write_append (',' :: writeItems rest (next :: items)) more item, List.cons_append]

theorem writeFields_append (rest more : List Char) :
    (fields : List (String × Json)) →
      writeFields (rest ++ more) fields = writeFields rest fields ++ more
  | [] => by simp only [writeFields]
  | [(key, value)] => by
    simp only [writeFields, write_append rest more value, List.append_assoc, List.cons_append]
  | (key, value) :: next :: fields => by
    simp only [writeFields, writeFields_append rest more (next :: fields), List.append_assoc,
      ← write_append (',' :: writeFields rest (next :: fields)) more value, List.cons_append]

end

/-- What follows a value changes nothing in its text. -/
theorem write_eq_compact_append (rest : List Char) (json : Json) :
    write rest json = compact json ++ rest :=
  write_append [] rest json

def newLine (indent : Nat) (rest : List Char) : List Char :=
  '\n' :: List.replicate indent ' ' ++ rest

mutual

/-- Writes a value in front of a text. Containers that hold something take a line for each item, two
columns further in. -/
def writeIndented (indent : Nat) (rest : List Char) : Json → List Char
  | array (item :: items) =>
    '[' :: writeLines (indent + 2) (newLine indent (']' :: rest)) (item :: items)
  | object (field :: fields) =>
    '\x7b' :: writeFieldLines (indent + 2) (newLine indent ('\x7d' :: rest)) (field :: fields)
  | json => write rest json

def writeLines (indent : Nat) (rest : List Char) : List Json → List Char
  | [] => rest
  | [item] => newLine indent (writeIndented indent rest item)
  | item :: items => newLine indent (writeIndented indent (',' :: writeLines indent rest items) item)

def writeFieldLines (indent : Nat) (rest : List Char) : List (String × Json) → List Char
  | [] => rest
  | [(key, value)] =>
    newLine indent (quote key.toList ++ ':' :: ' ' :: writeIndented indent rest value)
  | (key, value) :: fields =>
    newLine indent (quote key.toList ++ ':' :: ' ' ::
      writeIndented indent (',' :: writeFieldLines indent rest fields) value)

end

def pretty (json : Json) : List Char := writeIndented 0 [] json

end ArithLang.Json
