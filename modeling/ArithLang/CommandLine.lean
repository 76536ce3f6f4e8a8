import ArithLang.CommandLine.Arguments
import ArithLang.CommandLine.Repl
import ArithLang.Text.Quoted

/-! The command line as a function of its arguments, its files and its input. -/

namespace ArithLang

structure Output where
  status : Nat := 0
  out : List Char := []
  err : List Char := []
  deriving DecidableEq, Repr

namespace Output

def failed (err : List Char) (reason : List Char) : Output where
  status := 1
  err := err ++ "error: ".toList ++ reason ++ ['\n']

end Output

namespace Source

def open? (source : Source) (options : Options) (files : String → FileContent) :
    Except Output Session :=
  match source with
  | .text expr => .ok { name := "<expr>", source := expr.toList, options }
  | .file path =>
    (Session.ofFile? path (files path) options).mapError fun _ =>
      .failed [] ("Failed to open source file: ".toList ++ Text.quoted path.toList)

end Source

namespace Command

/-- The answer on a session, or the failure shown with a summary. -/
def report {α : Type} (session : Session) (result : Except Failure α) (summary : String)
    (text : α → List Char) : Output :=
  match result with
  | .ok a => { out := text a }
  | .error failure => .failed (session.render failure) summary.toList

def withSession (source : Source) (options : Options) (files : String → FileContent)
    (answer : Session → Output) : Output :=
  match source.open? options files with
  | .ok session => answer session
  | .error output => output

def run (command : Command) (options : Options) (files : String → FileContent)
    (input : List Char) : Output :=
  match command with
  | .tokens source asJson =>
    withSession source options files fun session =>
      report session session.tokenize "Lexical analysis failed" fun tokens =>
        if asJson then Listing.tokensJson tokens ++ ['\n']
        else "=== Tokens ===\n".toList ++ tokens.flatMap fun token => Listing.tokenLine token ++ ['\n']
  | .parse source =>
    withSession source options files fun session =>
      report session session.parse "Parsing failed" fun e => Listing.tree e ++ ['\n']
  | .check source =>
    withSession source options files fun session =>
      report session session.parse "Check failed" fun _ => "success: No errors found\n".toList
  | .repl =>
    let (out, err) := Repl.dialogue { options } (Repl.lines input)
    { out := Repl.banner.toList ++ out, err }

end Command

namespace CommandLine

def usage : String :=
  "Usage: shell-arith [OPTIONS] <tokens|parse|check|repl>\n\n" ++
    "  tokens [--json] <INPUT|-e EXPR>  Print the token stream\n" ++
    "  parse <INPUT|-e EXPR>            Parse an expression and print its AST as JSON\n" ++
    "  check <INPUT|-e EXPR>            Check an expression for errors\n" ++
    "  repl                             Start an interactive REPL\n\n" ++
    "Options:\n" ++
    "  -v, --verbose          Enable verbose output\n" ++
    "      --module           Parse as module code\n" ++
    "      --strict           Enable strict mode checks\n" ++
    "      --plugin <PLUGIN>  Enable an optional syntax plugin: function-bind\n"

/-- What is answered in place of a command. -/
def refuse : Refusal → Output
  | .misuse => { status := 2, err := usage.toList }
  | .help => { out := usage.toList }
  | .version => { out := "shell-arith 0.1.0\n".toList }

def run (args : List String) (files : String → FileContent) (input : List Char) : Output :=
  match Invocation.ofArguments args with
  | .ok invocation => invocation.command.run invocation.options files input
  | .error refusal => refuse refusal

end CommandLine

end ArithLang
