import ArithLang.Text.Blank
import ArithLang.Text.Identifier
import ArithLang.Text.Width
import ArithLang.Text.Quoted
import ArithLang.Number.Binary64
import ArithLang.Position
import ArithLang.Number
import ArithLang.Lexeme
import ArithLang.Scanner
import ArithLang.Expr.Decidable
import ArithLang.Parser
import ArithLang.Json.Number
import ArithLang.Json.Printer
import ArithLang.Json.Reader
import ArithLang.Expr.Reader
import ArithLang.Expr.Writer
import ArithLang.Options.Reader
import ArithLang.Token.Writer
import ArithLang.Session
import ArithLang.CommandLine
import ArithLang.Main
import ArithLang.Proofs.Parser.Recorded
import ArithLang.Proofs.Parser.Reparse
import ArithLang.Proofs.Expr.Json
import ArithLang.Proofs.Scanner.Adjacent
import ArithLang.Proofs.Scanner.Slices
import ArithLang.Proofs.Diagnostic
import ArithLang.Proofs.Parser.Options
import ArithLang.Proofs.Lexeme.Misspelled
import ArithLang.Proofs.Scanner.Words
import ArithLang.Proofs.Parser.Supplied
import ArithLang.Proofs.Lexeme.Apart
import ArithLang.Proofs.Scanner.Spacing
import ArithLang.Proofs.Parser.Grouping
import ArithLang.Proofs.Parser.Layout
import ArithLang.Proofs.Scanner.Progress
import ArithLang.Proofs.Lexeme.Literal
import ArithLang.Proofs.Scanner.Numbers
import ArithLang.Proofs.Parser.Depth
import ArithLang.Proofs.Parser.LineBreaks
import ArithLang.Proofs.Parser.Arrow
import ArithLang.Proofs.Parser.Maximal
import ArithLang.Proofs.Parser.Termination
