import Formulary.Json.Basic

/-!
# Writing JSON

Values are written on one line or with one item a line, indented by its depth.

- `Json.quote` writes a text between quotes: quotes, backslashes, control characters and surrogates
  that stand alone are written as escapes, and nothing else is.
- `Json.write` writes a value in a `Layout`.
-/

namespace Formulary

/-- How values are spread over lines. -/
inductive Layout where
  /-- On one line without blanks. -/
  | compact
  /-- One item a line, with some blanks for each level. -/
  | indented (width : Nat)
  deriving DecidableEq, Repr

namespace Layout

/-- What stands before an item at a depth. -/
def newline : Layout → Nat → Text
  | .compact, _ => []
  | .indented width, depth =>
    CodeUnit.ofChar '\n' :: List.replicate (width * depth) (CodeUnit.ofChar ' ')

/-- What stands between a name and its value. -/
def colon : Layout → Text
  | .compact => ":"
  | .indented _ => ": "

end Layout

namespace Json

/-- A hexadecimal digit in lower case. -/
def hexDigit (n : Nat) : CodeUnit :=
  if n < 10 then UInt16.ofNat (0x30 + n) else UInt16.ofNat (0x61 + (n - 10))

/-- A unit as an escape of four hexadecimal digits. -/
def hexEscape (u : CodeUnit) : Text :=
  let n := u.toNat
  [CodeUnit.ofChar '\\', CodeUnit.ofChar 'u', hexDigit (n / 4096 % 16), hexDigit (n / 256 % 16),
    hexDigit (n / 16 % 16), hexDigit (n % 16)]

/-- A unit that is no half of a surrogate pair, as it stands within quotes. -/
def quoteUnit (u : CodeUnit) : Text :=
  if u = CodeUnit.ofChar '"' then Text.ofChars ['\\', '"']
  else if u = CodeUnit.ofChar '\\' then Text.ofChars ['\\', '\\']
  else if u = 0x08 then Text.ofChars ['\\', 'b']
  else if u = 0x09 then Text.ofChars ['\\', 't']
  else if u = 0x0A then Text.ofChars ['\\', 'n']
  else if u = 0x0C then Text.ofChars ['\\', 'f']
  else if u = 0x0D then Text.ofChars ['\\', 'r']
  else if u.toNat < 0x20 then hexEscape u
  else [u]

/-- The units of a text as they stand within quotes. -/
def quoteUnits : Text → Text
  | [] => []
  | [u] => if u.isSurrogate then hexEscape u else quoteUnit u
  | u :: v :: rest =>
    if u.isHighSurrogate && v.isLowSurrogate then u :: v :: quoteUnits rest
    else if u.isSurrogate then hexEscape u ++ quoteUnits (v :: rest)
    else quoteUnit u ++ quoteUnits (v :: rest)

/-- A text between quotes. -/
def quote (t : Text) : Text :=
  CodeUnit.ofChar '"' :: quoteUnits t ++ [CodeUnit.ofChar '"']

/-- Written items between brackets, each on a line of its own; no items leave no line. -/
def enclose (layout : Layout) (depth : Nat) (opening closing : Char) (items : List Text) : Text :=
  if items.isEmpty then [CodeUnit.ofChar opening, CodeUnit.ofChar closing]
  else
    let separator := CodeUnit.ofChar ',' :: layout.newline (depth + 1)
    CodeUnit.ofChar opening :: layout.newline (depth + 1) ++ Text.join separator items
      ++ layout.newline depth ++ [CodeUnit.ofChar closing]

mutual

/-- A value as it is written at a depth. -/
def writeAt (layout : Layout) (depth : Nat) : Json → Text
  | .null => "null"
  | .bool true => "true"
  | .bool false => "false"
  | .number value => value.toNumber.text
  | .string value => quote value
  | .array items => enclose layout depth '[' ']' (writeItems layout (depth + 1) items)
  | .object members =>
    enclose layout depth '\x7b' '\x7d' (writeMembers layout (depth + 1) members)

/-- The items of a list. -/
def writeItems (layout : Layout) (depth : Nat) : List Json → List Text
  | [] => []
  | item :: rest => writeAt layout depth item :: writeItems layout depth rest

/-- The members of an object. -/
def writeMembers (layout : Layout) (depth : Nat) : List (Text × Json) → List Text
  | [] => []
  | (name, value) :: rest =>
    (quote name ++ layout.colon ++ writeAt layout depth value) :: writeMembers layout depth rest

end

/-- A value in a layout. -/
def write (layout : Layout) (value : Json) : Text := writeAt layout 0 value

end Json

end Formulary
