import ArithLang.Diagnostic.Rendering
import ArithLang.Parser

/-! A session: one named source with its options, read on demand, with its failures shown. -/

namespace ArithLang

structure Session where
  name : String
  source : List Char
  options : Options := {}

/-- What a file name leads to. -/
inductive FileContent
  | missing
  | directory
  | bytes : ByteArray → FileContent

namespace Session

/-- The file of a session, the only one it has. -/
def file : Nat := 0

def tokenize (session : Session) : Except Failure (List Token) :=
  (ArithLang.tokenize session.source session.options).mapError .lexical

def parse (session : Session) : Except Failure Expr :=
  (parseExpression session.source session.options).mapError .syntactic

def diagnostic (session : Session) (failure : Failure) : Diagnostic :=
  .ofFailure file session.source failure

def render (session : Session) (failure : Failure) : List Char :=
  (session.diagnostic failure).render session.name.toList session.source

def fileFailure (name text : String) : Failure :=
  .file s!"failed to read {name}: {text}"

/-- A session on a file, which must be text. -/
def ofFile? (name : String) (content : FileContent) (options : Options) : Except Failure Session :=
  match content with
  | .missing => .error (fileFailure name "No such file or directory (os error 2)")
  | .directory => .error (fileFailure name "Is a directory (os error 21)")
  | .bytes bytes =>
    match String.fromUTF8? bytes with
    | some text => .ok { name, source := text.toList, options }
    | none => .error (fileFailure name "stream did not contain valid UTF-8")

end Session

end ArithLang
