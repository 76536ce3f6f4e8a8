/-! The five families of operators, each an enumeration with the text of every member. -/

namespace ArithLang

inductive BinaryOp
  | eq | notEq | strictEq | strictNotEq | lt | ltEq | gt | gtEq | shl | shr | ushr
  | add | sub | mul | div | mod | exp | bitOr | bitXor | bitAnd
  deriving DecidableEq, Repr

namespace BinaryOp

def all : List BinaryOp :=
  [eq, notEq, strictEq, strictNotEq, lt, ltEq, gt, gtEq, shl, shr, ushr, add, sub, mul, div, mod,
    exp, bitOr, bitXor, bitAnd]

def text : BinaryOp → String
  | eq => "=="
  | notEq => "!="
  | strictEq => "==="
  | strictNotEq => "!=="
  | lt => "<"
  | ltEq => "<="
  | gt => ">"
  | gtEq => ">="
  | shl => "<<"
  | shr => ">>"
  | ushr => ">>>"
  | add => "+"
  | sub => "-"
  | mul => "*"
  | div => "/"
  | mod => "%"
  | exp => "**"
  | bitOr => "|"
  | bitXor => "^"
  | bitAnd => "&"

def ofText? (text : String) : Option BinaryOp :=
  all.find? (·.text == text)

@[simp] theorem ofText?_text (op : BinaryOp) : ofText? op.text = some op := by
  cases op <;> decide

end BinaryOp

inductive LogicalOp
  | or | and
  deriving DecidableEq, Repr

namespace LogicalOp

def all : List LogicalOp := [or, and]

def text : LogicalOp → String
  | or => "||"
  | and => "&&"

def ofText? (text : String) : Option LogicalOp :=
  all.find? (·.text == text)

@[simp] theorem ofText?_text (op : LogicalOp) : ofText? op.text = some op := by
  cases op <;> decide

end LogicalOp

inductive AssignOp
  | assign | add | sub | mul | div | mod | exp | shl | shr | ushr | bitOr | bitXor | bitAnd
  deriving DecidableEq, Repr

namespace AssignOp

def all : List AssignOp :=
  [assign, add, sub, mul, div, mod, exp, shl, shr, ushr, bitOr, bitXor, bitAnd]

def text : AssignOp → String
  | assign => "="
  | add => "+="
  | sub => "-="
  | mul => "*="
  | div => "/="
  | mod => "%="
  | exp => "**="
  | shl => "<<="
  | shr => ">>="
  | ushr => ">>>="
  | bitOr => "|="
  | bitXor => "^="
  | bitAnd => "&="

def ofText? (text : String) : Option AssignOp :=
  all.find? (·.text == text)

@[simp] theorem ofText?_text (op : AssignOp) : ofText? op.text = some op := by
  cases op <;> decide

end AssignOp

inductive UnaryOp
  | minus | plus | not | bitNot | typeof | void | delete
  deriving DecidableEq, Repr

namespace UnaryOp

def all : List UnaryOp := [minus, plus, not, bitNot, typeof, void, delete]

def text : UnaryOp → String
  | minus => "-"
  | plus => "+"
  | not => "!"
  | bitNot => "~"
  | typeof => "typeof"
  | void => "void"
  | delete => "delete"

def ofText? (text : String) : Option UnaryOp :=
  all.find? (·.text == text)

@[simp] theorem ofText?_text (op : UnaryOp) : ofText? op.text = some op := by
  cases op <;> decide

end UnaryOp

inductive UpdateOp
  | increment | decrement
  deriving DecidableEq, Repr

namespace UpdateOp

def all : List UpdateOp := [increment, decrement]

def text : UpdateOp → String
  | increment => "++"
  | decrement => "--"

def ofText? (text : String) : Option UpdateOp :=
  all.find? (·.text == text)

@[simp] theorem ofText?_text (op : UpdateOp) : ofText? op.text = some op := by
  cases op <;> decide

end UpdateOp

end ArithLang
