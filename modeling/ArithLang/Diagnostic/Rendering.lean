import ArithLang.Diagnostic
import ArithLang.Text.Width

/-!
The text of a diagnostic: its message, the line of the source that its label is on, carets under the
marked character, and notes. Here a line feed alone ends a line.
-/

namespace ArithLang

/-- A line of a source with a mark on it. -/
structure MarkedLine where
  number : Nat
  /-- The characters before the mark. -/
  before : List Char
  /-- The characters from the mark on. -/
  after : List Char

namespace MarkedLine

def find (source : List Char) (offset : Nat) : MarkedLine :=
  let passed := (Text.upTo? source offset).getD source
  { number := passed.count '\n' + 1
    before := (passed.reverse.takeWhile (· ≠ '\n')).reverse
    after := ((Text.from? source offset).getD []).takeWhile (· ≠ '\n') }

def isTrimmed (c : Char) : Bool :=
  c == '\n' || c == '\r' || c == '\x00'

/-- The line as it is shown, without line ends. -/
def text (line : MarkedLine) : List Char :=
  ((line.before ++ line.after).reverse.dropWhile isTrimmed).reverse

end MarkedLine

namespace Rendering

def tabWidth : Nat := 4

/-- Each character with its width from a column on; a tab goes to the next multiple of its width. -/
def cells (column : Nat) : List Char → List (Char × Nat)
  | [] => []
  | c :: cs =>
    let width := if c = '\t' then tabWidth - column % tabWidth else Text.displayWidth c
    (c, width) :: cells (column + width) cs

def shown (cs : List Char) : List Char :=
  (cells 0 cs).flatMap fun (c, width) => if c = '\t' then List.replicate width ' ' else [c]

/-- The marks under cells that begin at a byte offset: carets from `start` to `stop`, spaces before. -/
def marks (start stop offset : Nat) : List (Char × Nat) → List Char
  | [] => []
  | (c, width) :: rest =>
    let next := offset + c.utf8Size
    let mark :=
      if max start offset < min stop next then List.replicate width '^'
      else if offset < stop then List.replicate width ' '
      else []
    mark ++ marks start stop next rest

/-- The marks under a line, which has one cell more for a mark at its end. -/
def caretLine (line : MarkedLine) (width : Nat) : List Char :=
  let start := Text.byteLength line.before
  marks start (start + max width 1) 0 (cells 0 line.text ++ [('\x00', 1)])

def spaced (message : String) : List Char :=
  if message = "" then [] else ' ' :: message.toList

def snippet (name : List Char) (source : List Char) (label : Label) (notes : List String) :
    List Char :=
  let line := MarkedLine.find source label.start
  let number := Nat.toDigits 10 line.number
  let pad := List.replicate number.length ' '
  pad ++ " ┌─ ".toList ++ name ++ ':' :: number ++ ':' :: Nat.toDigits 10 (line.before.length + 1) ++
    '\n' :: pad ++ " │\n".toList ++
    number ++ " │ ".toList ++ shown line.text ++
    '\n' :: pad ++ " │ ".toList ++ caretLine line (label.stop - label.start) ++
    spaced label.message ++ ['\n'] ++
    (if notes = [] then [] else pad ++ " │\n".toList) ++
    notes.flatMap fun note => pad ++ " = ".toList ++ note.toList ++ ['\n']

end Rendering

/-- The text of a diagnostic about a source of this name; it ends with an empty line. -/
def Diagnostic.render (diagnostic : Diagnostic) (name source : List Char) : List Char :=
  "error: ".toList ++ diagnostic.message.toList ++ ['\n'] ++
    (diagnostic.label.elim [] fun label => Rendering.snippet name source label diagnostic.notes) ++
    ['\n']

end ArithLang
