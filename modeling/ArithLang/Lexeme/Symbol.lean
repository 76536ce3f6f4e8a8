import ArithLang.Lexeme.Reading

/-!
Operators and punctuation: a fixed set of texts. The table lists longer texts first, so the first
entry that fits is the longest.
-/

namespace ArithLang

structure Symbol where
  text : String
  kind : Kind
  deriving DecidableEq, Repr

namespace Symbol

def all : List Symbol :=
  [⟨">>>=", .assign⟩,
    ⟨"...", .ellipsis⟩, ⟨">>>", .bitShift⟩, ⟨">>=", .assign⟩, ⟨"<<=", .assign⟩, ⟨"**=", .assign⟩,
    ⟨"===", .equality⟩, ⟨"!==", .equality⟩,
    ⟨"==", .equality⟩, ⟨"!=", .equality⟩, ⟨"=>", .arrow⟩, ⟨"<=", .relational⟩,
    ⟨">=", .relational⟩, ⟨"<<", .bitShift⟩, ⟨">>", .bitShift⟩, ⟨"++", .incDec⟩, ⟨"--", .incDec⟩,
    ⟨"||", .logicalOr⟩, ⟨"&&", .logicalAnd⟩, ⟨"**", .exponent⟩, ⟨"::", .doubleColon⟩,
    ⟨"+=", .assign⟩, ⟨"-=", .assign⟩, ⟨"*=", .assign⟩, ⟨"/=", .assign⟩, ⟨"%=", .assign⟩,
    ⟨"|=", .assign⟩, ⟨"^=", .assign⟩, ⟨"&=", .assign⟩,
    ⟨"(", .parenL⟩, ⟨")", .parenR⟩, ⟨"[", .bracketL⟩, ⟨"]", .bracketR⟩, ⟨"\x7b", .braceL⟩,
    ⟨"\x7d", .braceR⟩, ⟨",", .comma⟩, ⟨";", .semi⟩, ⟨":", .colon⟩, ⟨".", .dot⟩, ⟨"?", .question⟩,
    ⟨"@", .atSign⟩, ⟨"\x60", .backQuote⟩, ⟨"=", .eq⟩, ⟨"!", .prefixOp⟩, ⟨"~", .prefixOp⟩,
    ⟨"|", .bitwiseOr⟩, ⟨"^", .bitwiseXor⟩, ⟨"&", .bitwiseAnd⟩, ⟨"<", .relational⟩,
    ⟨">", .relational⟩, ⟨"+", .plusMin⟩, ⟨"-", .plusMin⟩, ⟨"%", .modulo⟩, ⟨"*", .star⟩,
    ⟨"/", .slash⟩]

/-- Whether a token of this kind carries its text. -/
def carriesText : Kind → Bool
  | .num | .eof | .bracketL | .bracketR | .braceL | .braceR | .parenL | .parenR | .comma | .semi
  | .colon | .dot | .question | .arrow | .ellipsis | .backQuote | .atSign => false
  | _ => true

def value (symbol : Symbol) : Value :=
  if carriesText symbol.kind then .text symbol.text else .none

/-- `::` is a symbol only with its plugin. -/
def isAllowed (functionBind : Bool) (symbol : Symbol) : Bool :=
  symbol.kind != .doubleColon || functionBind

def longest? (functionBind : Bool) (cs : List Char) : Option Symbol :=
  all.find? fun symbol => symbol.isAllowed functionBind && symbol.text.toList.isPrefixOf cs

def read (symbol : Symbol) (cs : List Char) : Reading where
  taken := symbol.text.toList
  rest := cs.drop symbol.text.toList.length
  outcome := .ok (symbol.kind, symbol.value)

end Symbol

end ArithLang
