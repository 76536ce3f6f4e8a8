import ArithLang.Json

/-!
Reading JSON text. What is no JSON text is refused; a value whose escapes name half of a surrogate
pair is read as `unpaired`, and a number is kept as it is written, however large.
-/

namespace ArithLang.Json

def isSpace (c : Char) : Bool :=
  c == ' ' || c == '\n' || c == '\t' || c == '\r'

def skip (cs : List Char) : List Char :=
  cs.dropWhile isSpace

def hexCode? (cs : List Char) : Option Nat :=
  if cs.all (isDigitOf 16) then some (numberOf 16 cs) else none

def isHighSurrogate (code : Nat) : Bool := 0xd800 ≤ code && code < 0xdc00

def isLowSurrogate (code : Nat) : Bool := 0xdc00 ≤ code && code < 0xe000

def pairCode (high low : Nat) : Nat :=
  0x10000 + (high - 0xd800) * 0x400 + (low - 0xdc00)

def simpleEscape? : Char → Option Char
  | '\x22' => some '\x22'
  | '\\' => some '\\'
  | '/' => some '/'
  | 'b' => some '\x08'
  | 'f' => some '\x0c'
  | 'n' => some '\n'
  | 'r' => some '\r'
  | 't' => some '\t'
  | _ => none

/-- The content of a string, none where it is no text, and what follows the closing quote. -/
abbrev StringEnd := Option (List Char) × List Char

def spoil : StringEnd → StringEnd
  | (_, rest) => (none, rest)

/-- Puts a character in front, unless half of a pair still waits for its other half. -/
def push (waiting : Option Nat) (c : Char) : StringEnd → StringEnd
  | (content, rest) => (if waiting.isSome then none else content.map (c :: ·), rest)

/-- Reads a string after its opening quote, or after an escape of the first half of a pair. -/
def stringTail (waiting : Option Nat) : List Char → Option StringEnd
  | [] => none
  | '\x22' :: cs => some (if waiting.isSome then none else some [], cs)
  | '\\' :: 'u' :: a :: b :: c :: d :: cs =>
    match hexCode? [a, b, c, d] with
    | none => none
    | some code =>
      if isLowSurrogate code then
        match waiting with
        | some high => (stringTail none cs).map (push none (Char.ofNat (pairCode high code)))
        | none => (stringTail none cs).map spoil
      else if isHighSurrogate code then
        (stringTail (some code) cs).map (if waiting.isSome then spoil else id)
      else (stringTail none cs).map (push waiting (Char.ofNat code))
  | '\\' :: c :: cs =>
    match simpleEscape? c with
    | some c => (stringTail none cs).map (push waiting c)
    | none => none
  | c :: cs => if c.toNat < 0x20 then none else (stringTail none cs).map (push waiting c)

def digits (cs : List Char) : List Char :=
  cs.takeWhile Char.isDigit

def afterDigits (cs : List Char) : List Char :=
  cs.dropWhile Char.isDigit

/-- The part of a numeral from its exponent mark on. -/
def exponentTail (n : Numeral) (cs : List Char) : Option (Numeral × List Char) :=
  let read (negative : Bool) (cs : List Char) :=
    if digits cs = [] then none
    else
      let power : Int := numberOf 10 (digits cs)
      some ({ n with exponent := some (if negative then -power else power) }, afterDigits cs)
  match cs with
  | e :: sign :: rest =>
    if e = 'e' ∨ e = 'E' then
      if sign = '+' then read false rest
      else if sign = '-' then read true rest
      else read false (sign :: rest)
    else some (n, cs)
  | [e] => if e = 'e' ∨ e = 'E' then none else some (n, cs)
  | [] => some (n, cs)

def fractionTail (n : Numeral) (cs : List Char) : Option (Numeral × List Char) :=
  match cs with
  | '.' :: rest =>
    if digits rest = [] then none
    else exponentTail { n with fraction := digits rest } (afterDigits rest)
  | _ => exponentTail n cs

/-- A numeral without its sign; no zero stands before other digits. -/
def unsignedNumeral (negative : Bool) (cs : List Char) : Option (Numeral × List Char) :=
  let whole := digits cs
  if whole = [] ∨ (whole.head? = some '0' ∧ whole.length ≠ 1) then none
  else fractionTail { negative, whole } (afterDigits cs)

def numeral : List Char → Option (Numeral × List Char)
  | '-' :: cs => unsignedNumeral true cs
  | cs => unsignedNumeral false cs

def word? (word : String) (cs : List Char) : Option (List Char) :=
  if word.toList.isPrefixOf cs then some (cs.drop word.toList.length) else none

/-- An object, unless one of its keys is no text. -/
def ofFields (fields : List (Option String × Json)) : Json :=
  match fields.mapM fun field => field.1.map (·, field.2) with
  | some fields => object fields
  | none => unpaired

mutual

/-- Reads one value. The fuel bounds the steps; twice the length of the text suffices. -/
def value : Nat → List Char → Option (Json × List Char)
  | 0, _ => none
  | fuel + 1, cs =>
    match skip cs with
    | [] => none
    | c :: rest =>
      if c = '[' then
        match skip rest with
        | ']' :: after => some (array [], after)
        | _ => (items fuel rest).map fun (found, after) => (array found, after)
      else if c = '\x7b' then
        match skip rest with
        | '\x7d' :: after => some (object [], after)
        | _ => (fields fuel rest).map fun (found, after) => (ofFields found, after)
      else if c = '\x22' then
        (stringTail none rest).map fun (content, after) =>
          (content.elim unpaired fun cs => string (.ofList cs), after)
      else if c = 't' then (word? "true" (c :: rest)).map (bool true, ·)
      else if c = 'f' then (word? "false" (c :: rest)).map (bool false, ·)
      else if c = 'n' then (word? "null" (c :: rest)).map (null, ·)
      else (numeral (c :: rest)).map fun (n, after) => (number n, after)

/-- The items of an array that has some, and what follows its closing bracket. -/
def items : Nat → List Char → Option (List Json × List Char)
  | 0, _ => none
  | fuel + 1, cs =>
    match value fuel cs with
    | none => none
    | some (item, rest) =>
      match skip rest with
      | ',' :: rest => (items fuel rest).map fun (others, after) => (item :: others, after)
      | ']' :: after => some ([item], after)
      | _ => none

/-- The fields of an object that has some, and what follows its closing brace. -/
def fields : Nat → List Char → Option (List (Option String × Json) × List Char)
  | 0, _ => none
  | fuel + 1, cs =>
    match skip cs with
    | '\x22' :: rest =>
      match stringTail none rest with
      | none => none
      | some (key, rest) =>
        match skip rest with
        | ':' :: rest =>
          match value fuel rest with
          | none => none
          | some (item, rest) =>
            let field := (key.map String.ofList, item)
            match skip rest with
            | ',' :: rest => (fields fuel rest).map fun (others, after) => (field :: others, after)
            | '\x7d' :: after => some ([field], after)
            | _ => none
        | _ => none
    | _ => none

end

/-- The value that a whole text is. -/
def read? (cs : List Char) : Option Json :=
  match value (2 * cs.length + 2) cs with
  | some (json, rest) => if skip rest = [] then some json else none
  | none => none

end ArithLang.Json
