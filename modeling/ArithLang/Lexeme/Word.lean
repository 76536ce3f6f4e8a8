import ArithLang.Lexeme.Reading
import ArithLang.Text.Identifier

/-!
Words: names and keywords. A character of a word may be spelled by an escape, four hexadecimal digits
after `\u` or any number of them in braces. A word with an escape is never a keyword.
-/

namespace ArithLang

/-- The reading of an escape from the character after its backslash on. The offset of an error counts
from the backslash. -/
structure EscapeReading where
  taken : List Char
  rest : List Char
  code : Except LexError Nat

def readBracedCode (cs : List Char) : EscapeReading :=
  let digits := cs.takeWhile (isDigitOf 16)
  let code := numberOf 16 digits
  if cs.contains '\x7d' then
    match cs.dropWhile (isDigitOf 16) with
    | [] => ⟨'u' :: '\x7b' :: digits, [], .error ⟨.badEscape, 3⟩⟩
    | c :: rest =>
      if c = '\x7d' ∧ digits ≠ [] then
        ⟨'u' :: '\x7b' :: digits ++ [c], rest,
          if 0x10ffff < code then .error ⟨.codePointOutOfBounds, 2⟩ else .ok code⟩
      else ⟨'u' :: '\x7b' :: digits, c :: rest, .error ⟨.badEscape, 3⟩⟩
  else ⟨['u', '\x7b'], cs, .error ⟨.badEscape, 3⟩⟩

def readFourDigits (cs : List Char) : EscapeReading :=
  let digits := (cs.take 4).takeWhile (isDigitOf 16)
  ⟨'u' :: digits, cs.drop digits.length,
    if digits.length = 4 then .ok (numberOf 16 digits) else .error ⟨.badEscape, 2⟩⟩

def readEscape : List Char → EscapeReading
  | 'u' :: '\x7b' :: cs => readBracedCode cs
  | 'u' :: cs => readFourDigits cs
  | cs => ⟨[], cs, .error ⟨.missingUnicodeEscape, 1⟩⟩

theorem readBracedCode_append (cs : List Char) :
    (readBracedCode cs).taken ++ (readBracedCode cs).rest = 'u' :: '\x7b' :: cs := by
  have split := List.takeWhile_append_dropWhile (p := isDigitOf 16) (l := cs)
  unfold readBracedCode
  split
  · split
    · next h =>
      rw [h, List.append_nil] at split
      simp only [List.append_nil, split]
    · next c rest h =>
      rw [h] at split
      by_cases hc : c = '\x7d' ∧ cs.takeWhile (isDigitOf 16) ≠ []
      · simp only [if_pos hc, List.cons_append, List.append_assoc, List.nil_append, split]
      · simp only [if_neg hc, List.cons_append, split]
  · rfl

theorem readEscape_append (cs : List Char) :
    (readEscape cs).taken ++ (readEscape cs).rest = cs := by
  unfold readEscape
  split
  · exact readBracedCode_append _
  · next cs _ =>
    have pre : (cs.take 4).takeWhile (isDigitOf 16) <+: cs :=
      (List.takeWhile_prefix _).trans (List.take_prefix _ _)
    simp only [readFourDigits, List.cons_append, List.cons.injEq, true_and]
    conv => lhs; arg 1; rw [List.prefix_iff_eq_take.1 pre]
    exact List.take_append_drop _ _
  · rfl

theorem length_rest_readEscape (cs : List Char) : (readEscape cs).rest.length ≤ cs.length := by
  have := congrArg List.length (readEscape_append cs)
  simp at this
  omega

/-- The character of a code point, if it is one. -/
def charOf? (code : Nat) : Option Char :=
  if code.isValidChar then some (Char.ofNat code) else none

structure WordReading where
  taken : List Char
  rest : List Char
  escaped : Bool
  outcome : Except LexError (List Char)

/-- Puts one character, and its spelling, in front of what was read after it. -/
def WordReading.cons (spelling : List Char) (escaped : Bool) (c : Char) (after : WordReading) :
    WordReading where
  taken := spelling ++ after.taken
  rest := after.rest
  escaped := escaped || after.escaped
  outcome := match after.outcome with
    | .ok word => .ok (c :: word)
    | .error error => .error (error.shift (Text.byteLength spelling))

/-- Which characters an escape may stand for. -/
def mayStand (first : Bool) (c : Char) : Bool :=
  if first then Text.isIdentifierStart c else Text.isIdentifierChar c

def readSpelledWord (first : Bool) : List Char → WordReading
  | [] => ⟨[], [], false, .ok []⟩
  | c :: cs =>
    if Text.isIdentifierChar c then (readSpelledWord false cs).cons [c] false c
    else if c = '\\' then
      let escape := readEscape cs
      match escape.code with
      | .error error => ⟨c :: escape.taken, escape.rest, true, .error error⟩
      | .ok code =>
        match (charOf? code).filter (mayStand first) with
        | none => ⟨c :: escape.taken, escape.rest, true, .error ⟨.invalidUnicodeEscape, 0⟩⟩
        | some decoded => (readSpelledWord false escape.rest).cons (c :: escape.taken) true decoded
    else ⟨[], c :: cs, false, .ok []⟩
  termination_by cs => cs.length
  decreasing_by
  · simp
  · exact Nat.lt_succ_of_le (length_rest_readEscape cs)

/-- The kind of a word by its text and by whether it was spelled with an escape. -/
def wordKind (word : String) (escaped : Bool) : Kind :=
  if escaped then .name else (Kind.keyword? word).getD .name

def readWord (cs : List Char) : Reading :=
  let reading := readSpelledWord true cs
  { taken := reading.taken
    rest := reading.rest
    escaped := some reading.escaped
    outcome := match reading.outcome with
      | .ok word => .ok (wordKind (.ofList word) reading.escaped, .text (.ofList word))
      | .error error => .error error }

end ArithLang
