import ArithLang.CommandLine

/-! The program: reads what its arguments name, and writes the answer. -/

namespace ArithLang

/-- A file that cannot be read for whatever reason counts as missing. -/
def readContent (path : String) : IO FileContent := do
  try
    return .bytes (← IO.FS.readBinFile path)
  catch _ => return .missing

def write (output : Output) : IO UInt32 := do
  (← IO.getStdout).putStr (.ofList output.out)
  (← IO.getStderr).putStr (.ofList output.err)
  return .ofNat output.status

/-- Answers lines as they come, until one ends the dialogue or there are no more. -/
partial def interact (repl : Repl) : IO Unit := do
  let stdout ← IO.getStdout
  stdout.putStr (.ofList repl.prompt)
  stdout.flush
  let line ← (← IO.getStdin).getLine
  if line.isEmpty then stdout.putStr "\n"
  else
    let answer := repl.answer line.toList
    stdout.putStr (.ofList answer.out)
    (← IO.getStderr).putStr (.ofList answer.err)
    match answer.next with
    | some next => interact next
    | none => return

def runCommand (invocation : Invocation) : IO UInt32 := do
  match invocation.command with
  | .repl =>
    (← IO.getStdout).putStr Repl.banner
    interact { options := invocation.options }
    return 0
  | .tokens (.file path) _ | .parse (.file path) | .check (.file path) =>
    let content ← readContent path
    write (invocation.command.run invocation.options (fun _ => content) [])
  | command => write (command.run invocation.options (fun _ => .missing) [])

end ArithLang

open ArithLang in
def main (args : List String) : IO UInt32 :=
  match Invocation.ofArguments args with
  | .ok invocation => runCommand invocation
  | .error refusal => write (CommandLine.refuse refusal)
