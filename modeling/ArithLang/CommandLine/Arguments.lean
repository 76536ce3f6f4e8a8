import ArithLang.Options

/-!
The arguments of the command line: options that hold for every command, a command, and the command's
own options and operand. Each option may be given once before the command and once after it.
-/

namespace ArithLang

/-- Where the expression comes from. -/
inductive Source
  | file : (path : String) → Source
  | text : String → Source
  deriving DecidableEq, Repr

inductive Command
  | tokens : Source → (asJson : Bool) → Command
  | parse : Source → Command
  | check : Source → Command
  | repl
  deriving DecidableEq, Repr

structure Invocation where
  command : Command
  options : Options
  deriving DecidableEq, Repr

/-- Why arguments make no invocation. -/
inductive Refusal
  | misuse
  | help
  | version
  deriving DecidableEq, Repr

namespace Arguments

inductive Flag
  | verbose | moduleCode | strict | asJson
  deriving DecidableEq, Repr

inductive OptionName
  | flag : Flag → OptionName
  | plugin
  | expr
  | help
  | version
  deriving DecidableEq, Repr

/-- The part of the arguments an option stands in. -/
inductive Scope
  | top
  | tokens
  | parse
  | check
  | repl
  deriving DecidableEq, Repr

namespace Scope

def hasSource : Scope → Bool
  | tokens | parse | check => true
  | top | repl => false

def knows (scope : Scope) : OptionName → Bool
  | .flag .asJson => scope == tokens
  | .expr => scope.hasSource
  | .version => scope == top
  | .flag _ | .plugin | .help => true

def long? (scope : Scope) (name : List Char) : Option OptionName :=
  let found : Option OptionName :=
    match String.ofList name with
    | "verbose" => some (.flag .verbose)
    | "module" => some (.flag .moduleCode)
    | "strict" => some (.flag .strict)
    | "json" => some (.flag .asJson)
    | "plugin" => some .plugin
    | "expr" => some .expr
    | "help" => some .help
    | "version" => some .version
    | _ => none
  found.filter scope.knows

def short? (scope : Scope) (c : Char) : Option OptionName :=
  let found : Option OptionName :=
    match c with
    | 'v' => some (.flag .verbose)
    | 'e' => some .expr
    | 'h' => some .help
    | 'V' => some .version
    | _ => none
  found.filter scope.knows

def ofCommand? : String → Option Scope
  | "tokens" => some tokens
  | "parse" => some parse
  | "check" => some check
  | "repl" => some repl
  | _ => none

end Scope

/-- What one part of the arguments gives. -/
structure Given where
  flags : List Flag := []
  plugins : List Plugin := []
  expr : Option String := none
  path : Option String := none

namespace Given

def addFlag (given : Given) (flag : Flag) : Except Refusal Given :=
  if given.flags.contains flag then .error .misuse
  else .ok { given with flags := flag :: given.flags }

def addPath (given : Given) (scope : Scope) (path : String) : Except Refusal Given :=
  if scope.hasSource && given.path.isNone && path ≠ "" then .ok { given with path := some path }
  else .error .misuse

def addPaths (given : Given) (scope : Scope) (paths : List String) : Except Refusal Given :=
  paths.foldlM (·.addPath scope ·) given

/-- Adds an option that stands without a value. -/
def addBare (given : Given) : OptionName → Except Refusal Given
  | .flag flag => given.addFlag flag
  | .help => .error .help
  | .version => .error .version
  | .plugin | .expr => .error .misuse

/-- Adds an option with its value. -/
def addValue (given : Given) (value : String) : OptionName → Except Refusal Given
  | .plugin =>
    if value = "function-bind" then .ok { given with plugins := given.plugins ++ [.functionBind] }
    else .error .misuse
  | .expr =>
    if given.expr.isNone then .ok { given with expr := some value } else .error .misuse
  | .flag _ | .help | .version => .error .misuse

def source? (given : Given) : Except Refusal Source :=
  match given.path, given.expr with
  | some path, none => .ok (.file path)
  | none, some expr => .ok (.text expr)
  | _, _ => .error .misuse

end Given

def OptionName.takesValue : OptionName → Bool
  | plugin | expr => true
  | flag _ | help | version => false

/-- A value in an argument of its own does not look like an option. -/
def isValue (arg : String) : Bool :=
  arg == "-" || arg.toList.head? != some '-'

/-- Reads a cluster of one-letter options; also the last of them, if it waits for a value. -/
def readCluster (scope : Scope) (given : Given) :
    List Char → Except Refusal (Given × Option OptionName)
  | [] => .ok (given, none)
  | c :: cs =>
    match scope.short? c with
    | none => .error .misuse
    | some name =>
      if name.takesValue then
        match cs with
        | [] => .ok (given, some name)
        | '=' :: value => return (← given.addValue (.ofList value) name, none)
        | value => return (← given.addValue (.ofList value) name, none)
      else do readCluster scope (← given.addBare name) cs

/-- Reads one part of the arguments; the part before the command ends where the command stands. -/
def readPart (scope : Scope) (given : Given) : List String → Except Refusal (Given × List String)
  | [] => .ok (given, [])
  | arg :: rest => do
    match arg.toList with
    | ['-', '-'] => return (← given.addPaths scope rest, [])
    | '-' :: '-' :: option =>
      match scope.long? (option.takeWhile (· ≠ '=')) with
      | none => .error .misuse
      | some name =>
        match option.dropWhile (· ≠ '=') with
        | _ :: value => readPart scope (← given.addValue (.ofList value) name) rest
        | [] =>
          if name.takesValue then
            match rest with
            | value :: rest =>
              if isValue value then readPart scope (← given.addValue value name) rest
              else .error .misuse
            | [] => .error .misuse
          else readPart scope (← given.addBare name) rest
    | '-' :: c :: cs =>
      match ← readCluster scope given (c :: cs) with
      | (given, none) => readPart scope given rest
      | (given, some name) =>
        match rest with
        | value :: rest =>
          if isValue value then readPart scope (← given.addValue value name) rest
          else .error .misuse
        | [] => .error .misuse
    | _ =>
      if scope = .top then return (given, arg :: rest)
      else readPart scope (← given.addPath scope arg) rest

def command? (given : Given) : Scope → Except Refusal Command
  | .tokens => do return .tokens (← given.source?) (given.flags.contains .asJson)
  | .parse => do return .parse (← given.source?)
  | .check => do return .check (← given.source?)
  | .repl => return .repl
  | .top => .error .misuse

def options (before after : Given) : Options :=
  let flags := before.flags ++ after.flags
  let plugins := before.plugins ++ after.plugins
  plugins.foldl Options.withPlugin
    { moduleCode := flags.contains .moduleCode, strict := flags.contains .strict }

end Arguments

open Arguments in
def Invocation.ofArguments (args : List String) : Except Refusal Invocation := do
  match ← readPart .top {} args with
  | (before, name :: rest) =>
    match Scope.ofCommand? name with
    | none => .error .misuse
    | some scope =>
      let (after, _) ← readPart scope {} rest
      return { command := ← command? after scope, options := Arguments.options before after }
  | (_, []) => .error .misuse

end ArithLang
