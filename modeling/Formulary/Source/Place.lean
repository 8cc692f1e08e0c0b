import Formulary.Source.Fault

/-!
# Places in a text

Where a position lies: its line and column, the line's text and a pointer below it. Lines and
columns count from one. A line feed starts a line; a carriage return takes no column.

- `Place.locate` gives the place of any position, those outside the text included.
- `ParseError` is a fault together with the text and the position; `ParseError.message` reports it.
-/

namespace Formulary

/-- A place in a text, as a report shows it. -/
structure Place where
  /-- The position, moved into the text. -/
  offset : Nat
  /-- The line, counted from one. -/
  line : Nat
  /-- The column, counted from one. -/
  column : Nat
  /-- The units around the offset up to the nearest line breaks. -/
  lineText : Text
  /-- Blanks and a caret below the column. -/
  pointer : Text
  deriving DecidableEq, Repr

namespace Place

/-- The position moved to the nearest unit of the text; zero in an empty text. -/
def clampOffset (text : Text) (position : Int) : Nat := min position.toNat (text.length - 1)

/-- The line reached after some units: one more than their line feeds. -/
def lineAfter (before : Text) : Nat := before.countP CodeUnit.isLineFeed + 1

/-- The column reached after some units: one more than the units since the last line feed that
are no carriage return. -/
def columnAfter (before : Text) : Nat :=
  (before.reverse.takeWhile (fun u => !u.isLineFeed)).countP (fun u => !u.isCarriageReturn) + 1

/-- The units around an offset up to the nearest line breaks; none when a line break stands at
the offset and right before it. -/
def lineTextAt (text : Text) (offset : Nat) : Text :=
  ((text.take offset).reverse.takeWhile (fun u => !u.isLineBreak)).reverse
    ++ (text.drop offset).takeWhile (fun u => !u.isLineBreak)

/-- The column of the caret: at most one behind the line's text. -/
def pointerColumn (column : Nat) (lineText : Text) : Nat :=
  max 1 (min column (if lineText.isEmpty then 1 else lineText.length + 1))

/-- A caret at a column. -/
def pointerAt (column : Nat) : Text :=
  List.replicate (column - 1) (CodeUnit.ofChar ' ') ++ [CodeUnit.ofChar '^']

/-- The place of a position in a text. -/
def locate (text : Text) (position : Int) : Place :=
  let offset := clampOffset text position
  let before := text.take offset
  let column := columnAfter before
  let lineText := lineTextAt text offset
  { offset, line := lineAfter before, column, lineText,
    pointer := pointerAt (pointerColumn column lineText) }

end Place

/-- A fault found at a position of a text. -/
structure ParseError where
  /-- What is wrong. -/
  fault : Fault
  /-- The text that was read. -/
  source : Text
  /-- The position that the fault was found at. -/
  position : Nat
  deriving DecidableEq, Repr

namespace ParseError

/-- The place of the fault. -/
def place (e : ParseError) : Place := Place.locate e.source e.position

/-- The report: place and reason, the line with the pointer unless the line is empty, and the
whole text. -/
def message (e : ParseError) : Text :=
  let place := e.place
  let excerpt :=
    if place.lineText.isEmpty then [] else Text.concat ["\n", place.lineText, "\n", place.pointer]
  Text.concat ["Parse error at line ", Text.ofNat place.line, ", column ", Text.ofNat place.column,
    ": ", e.fault.reason, excerpt, "\nExpression:\n", e.source]

end ParseError

end Formulary
