/-!
Token kinds. A kind alone tells the role of a token in an expression: its binding strength as a binary
operator, and whether it may stand before or after an operand or assign.
-/

namespace ArithLang

inductive Kind
  | num | name | eof
  | bracketL | bracketR | braceL | braceR | parenL | parenR
  | comma | semi | colon | doubleColon | dot | question | arrow | ellipsis | backQuote | atSign
  | eq | assign | incDec | prefixOp
  | logicalOr | logicalAnd | bitwiseOr | bitwiseXor | bitwiseAnd
  | equality | relational | bitShift | plusMin | modulo | star | slash | exponent
  | inWord | yieldWord | deleteWord | typeofWord | voidWord
  deriving DecidableEq, Repr, Inhabited

namespace Kind

def all : List Kind :=
  [num, name, eof, bracketL, bracketR, braceL, braceR, parenL, parenR, comma, semi, colon,
    doubleColon, dot, question, arrow, ellipsis, backQuote, atSign, eq, assign, incDec, prefixOp,
    logicalOr, logicalAnd, bitwiseOr, bitwiseXor, bitwiseAnd, equality, relational, bitShift,
    plusMin, modulo, star, slash, exponent, inWord, yieldWord, deleteWord, typeofWord, voidWord]

theorem mem_all (kind : Kind) : kind ∈ all := by
  cases kind <;> decide

def label : Kind → String
  | num => "num"
  | name => "name"
  | eof => "eof"
  | bracketL => "["
  | bracketR => "]"
  | braceL => "\x7b"
  | braceR => "\x7d"
  | parenL => "("
  | parenR => ")"
  | comma => ","
  | semi => ";"
  | colon => ":"
  | doubleColon => "::"
  | dot => "."
  | question => "?"
  | arrow => "=>"
  | ellipsis => "..."
  | backQuote => "\x60"
  | atSign => "@"
  | eq => "="
  | assign => "_="
  | incDec => "++/--"
  | prefixOp => "prefix"
  | logicalOr => "||"
  | logicalAnd => "&&"
  | bitwiseOr => "|"
  | bitwiseXor => "^"
  | bitwiseAnd => "&"
  | equality => "==/!="
  | relational => "</>"
  | bitShift => "<</>>"
  | plusMin => "+/-"
  | modulo => "%"
  | star => "*"
  | slash => "/"
  | exponent => "**"
  | inWord => "in"
  | yieldWord => "yield"
  | deleteWord => "delete"
  | typeofWord => "typeof"
  | voidWord => "void"

def ofLabel? (text : String) : Option Kind :=
  all.find? (·.label == text)

/-- The binding strength of a binary operator; higher binds tighter. `**` shares the level of `*`. -/
def strength? : Kind → Option Nat
  | logicalOr => some 1
  | logicalAnd => some 2
  | bitwiseOr => some 3
  | bitwiseXor => some 4
  | bitwiseAnd => some 5
  | equality => some 6
  | relational | inWord => some 7
  | bitShift => some 8
  | plusMin => some 9
  | modulo | star | slash | exponent => some 10
  | _ => none

def startsUnary : Kind → Bool
  | incDec | prefixOp | plusMin | deleteWord | typeofWord | voidWord => true
  | _ => false

def isPostfix : Kind → Bool
  | incDec => true
  | _ => false

def isAssignment : Kind → Bool
  | eq | assign => true
  | _ => false

def isRightAssociative : Kind → Bool
  | exponent => true
  | _ => false

/-- The kind of a word that is no plain name. -/
def keyword? (word : String) : Option Kind :=
  [inWord, yieldWord, deleteWord, typeofWord, voidWord].find? (·.label == word)

end Kind

end ArithLang
