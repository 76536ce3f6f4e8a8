import ArithLang.CommandLine.Listing

/-!
The interactive prompt. Every line is answered by itself; a line that is no command and not empty is
an expression, and only such lines are numbered.
-/

namespace ArithLang

structure Repl where
  options : Options
  number : Nat := 1

namespace Repl

/-- What a line is answered with, and the prompt's state after it unless it ends the dialogue. -/
structure Answer where
  out : List Char := []
  err : List Char := []
  next : Option Repl

def banner : String :=
  "Shell Arithmetic REPL\nType ':quit' or ':q' to exit, ':help' for help\n\n"

def help : String :=
  "REPL commands:\n  :quit, :q    Exit the REPL\n  :help, :h    Show this help message\n" ++
    "  :clear, :c   Clear the screen\n  :t <expr>    Show the tokens of an expression\n\n" ++
    "Enter an arithmetic expression to see its AST.\n"

def clearScreen : String := "\x1b[2J\x1b[1;1H"

def prompt (repl : Repl) : List Char :=
  "arith:".toList ++ Listing.padLeft 3 '0' repl.number ++ ['>', ' ']

/-- The rest of a line after a command word and the blank behind it. -/
def after? (word : String) (line : List Char) : Option (List Char) :=
  if word.toList.isPrefixOf line then some (line.drop word.toList.length) else none

def session (repl : Repl) (source : List Char) : Session where
  name := s!"<repl:{repl.number}>"
  source
  options := repl.options

def evaluate (repl : Repl) (line : List Char) : Session × Except Failure (List Char) :=
  match (after? ":tokens " line).or (after? ":t " line) with
  | some text =>
    let session := repl.session text
    (session, session.tokenize.map fun tokens =>
      List.intercalate ['\n'] (tokens.map Listing.tokenLine))
  | none =>
    let session := repl.session line
    (session, session.parse.map Listing.tree)

def answer (repl : Repl) (line : List Char) : Answer :=
  let line := Text.trim line
  match String.ofList line with
  | ":quit" | ":q" => { out := "Goodbye!\n".toList, next := none }
  | ":help" | ":h" => { out := help.toList, next := some repl }
  | ":clear" | ":c" => { out := clearScreen.toList, next := some repl }
  | "" => { next := some repl }
  | _ =>
    let next := some { repl with number := repl.number + 1 }
    match repl.evaluate line with
    | (_, .ok text) => { out := text ++ ['\n'], next }
    | (session, .error failure) => { err := session.render failure, next }

/-- The lines of a text, each with its line feed. -/
def lines (cs : List Char) : List (List Char) :=
  cs.foldr
    (fun c lines =>
      if c = '\n' then [c] :: lines
      else match lines with
        | line :: lines => (c :: line) :: lines
        | [] => [[c]])
    []

/-- What the dialogue over given lines writes to its two outputs, the banner apart. At the end of the
lines the prompt's line is ended. -/
def dialogue (repl : Repl) : List (List Char) → List Char × List Char
  | [] => (repl.prompt ++ ['\n'], [])
  | line :: rest =>
    let answer := repl.answer line
    let (out, err) := match answer.next with
      | some next => next.dialogue rest
      | none => ([], [])
    (repl.prompt ++ answer.out ++ out, answer.err ++ err)

end Repl

end ArithLang
