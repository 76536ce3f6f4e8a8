import ArithLang.Gap

/-!
The scanner: a text read token by token. A scan moves the last token's stretch aside, passes the gap,
marks where the token starts and reads one lexeme. A scan that fails has done all but the last step,
and has passed what the reading took; the next scan goes on from there.
-/

namespace ArithLang

structure ScanState where
  place : Place := {}
  rest : List Char
  start : Position := {}
  stop : Position := {}
  kind : Kind := .eof
  value : Value := .none
  lastStart : Position := {}
  lastStop : Position := {}
  /-- Whether the last word read held an escape. -/
  escaped : Bool := false

namespace ScanState

def token (state : ScanState) : Token where
  kind := state.kind
  value := state.value
  start := state.start
  stop := state.stop

def shift (state : ScanState) : ScanState :=
  { state with lastStart := state.start, lastStop := state.stop }

/-- Passes the gap and marks the start of what follows. A line break has been passed since the last
token if that token stopped on an earlier line. -/
def passGap (state : ScanState) (moduleCode : Bool) : ScanState :=
  let gap := readGap moduleCode (state.lastStop.line < state.place.line) state.rest
  let place := (state.place.pass gap.taken).count
  { state with place, rest := gap.rest, start := place.position }

/-- Passes what a reading took; with a token read, marks its stop and keeps its kind and value. -/
def passReading (state : ScanState) (reading : Reading) : Except LexError Token × ScanState :=
  let place := state.place.pass reading.taken
  let state' :=
    { state with place, rest := reading.rest, escaped := reading.escaped.getD state.escaped }
  match reading.outcome with
  | .ok (kind, value) =>
    let state' := { state' with place := place.count, stop := place.count.position, kind, value }
    (.ok state'.token, state')
  | .error error => (.error (error.shift state.place.offset), state')

/-- The next token; at the end of the text, `eof` again and again. -/
def next (state : ScanState) (options : Options) : Except LexError Token × ScanState :=
  let state := state.shift.passGap options.moduleCode
  state.passReading (readLexeme options state.rest)

end ScanState

/-- A scanner over one text, also as a stream that ends after `eof` or after the first error. -/
structure Scanner where
  input : List Char
  options : Options
  state : ScanState
  ended : Bool := false

namespace Scanner

def start (input : List Char) (options : Options) : Scanner where
  input
  options
  state := { rest := input }

def next (scanner : Scanner) : Except LexError Token × Scanner :=
  let (result, state) := scanner.state.next scanner.options
  (result, { scanner with state })

/-- Whether a result is the last one of the stream. -/
def isLast : Except LexError Token → Bool
  | .ok token => token.kind == .eof
  | .error _ => true

def next? (scanner : Scanner) : Option (Except LexError Token) × Scanner :=
  if scanner.ended then (none, scanner)
  else
    let (result, scanner) := scanner.next
    (some result, { scanner with ended := isLast result })

/-- The tokens of the stream, of at most `limit` of them. -/
def collect : Nat → Scanner → Except LexError (List Token)
  | 0, _ => .ok []
  | limit + 1, scanner =>
    match scanner.next? with
    | (none, _) => .ok []
    | (some (.error error), _) => .error error
    | (some (.ok token), scanner) => (scanner.collect limit).map (token :: ·)

end Scanner

/-- All tokens of a text, `eof` last. Each token but the last takes a character at least, so the text's
length bounds their number. -/
def tokenize (input : List Char) (options : Options) : Except LexError (List Token) :=
  (Scanner.start input options).collect (input.length + 1)

end ArithLang
