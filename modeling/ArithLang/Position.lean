import ArithLang.Text.Blank

/-!
Positions in a text, and the running place of a scanner. A place passes text forwards; it counts
columns lazily, so `column` says how many characters of the line lie before `columnOffset` and
`uncounted` how many lie between there and `offset`.
-/

namespace ArithLang

/-- A byte offset with its line, counted from one, and its column, counted in characters. -/
structure Position where
  offset : Nat := 0
  line : Nat := 1
  column : Nat := 0
  deriving DecidableEq, Repr, Inhabited

structure Place where
  offset : Nat := 0
  line : Nat := 1
  lineStart : Nat := 0
  column : Nat := 0
  columnOffset : Nat := 0
  uncounted : Nat := 0
  deriving DecidableEq, Repr, Inhabited

namespace Place

def step (place : Place) (c : Char) : Place :=
  { place with offset := place.offset + c.utf8Size, uncounted := place.uncounted + 1 }

/-- Passes a line break of the given width in bytes. -/
def breakLine (place : Place) (width : Nat) : Place where
  offset := place.offset + width
  line := place.line + 1
  lineStart := place.offset + width
  column := 0
  columnOffset := place.offset + width
  uncounted := 0

/-- Passes a text; a carriage return and the line feed after it are one break. -/
def pass (place : Place) : List Char → Place
  | [] => place
  | '\r' :: '\n' :: cs => (place.breakLine 2).pass cs
  | c :: cs =>
    if Text.isLineBreak c then (place.breakLine c.utf8Size).pass cs else (place.step c).pass cs

def count (place : Place) : Place :=
  { place with
    column := place.column + place.uncounted
    columnOffset := place.offset
    uncounted := 0 }

/-- The position of a place that has counted its column. -/
def position (place : Place) : Position :=
  ⟨place.offset, place.line, place.column⟩

end Place

end ArithLang
