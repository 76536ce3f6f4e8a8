import ArithLang.Cursor
import ArithLang.Scanner

/-! The cursor over a text, which scans each token when the cursor moves to it. -/

namespace ArithLang

structure TokenStream where
  scanner : Scanner
  current : Token

namespace TokenStream

def open? (input : List Char) (options : Options) : Except LexError TokenStream :=
  match (Scanner.start input options).next with
  | (.ok current, scanner) => .ok { scanner, current }
  | (.error error, _) => .error error

/-- After a failed move the current token is still the old one. -/
def advance (stream : TokenStream) : Except LexError Unit × TokenStream :=
  match stream.scanner.next with
  | (.ok current, scanner) => (.ok (), { scanner, current })
  | (.error error, scanner) => (.error error, { stream with scanner })

end TokenStream

instance : TokenCursor TokenStream where
  current stream := stream.current
  lastStop stream := stream.scanner.state.lastStop
  advance := TokenStream.advance
  input stream := stream.scanner.input
  remaining stream := stream.scanner.state.rest.length + 1

end ArithLang
