/-!
# Text as UTF-16 code units

A formula, a name and a message are sequences of UTF-16 code units. Positions and lengths count
units, and the scanner looks at one unit at a time, so a surrogate may come to stand alone.

- `Text.ofString` writes a string out in units and `Text.toString` reads the units back, with
  U+FFFD in the place of a surrogate that stands alone.
- `CodeUnit.isBlank` is the class of all blanks, which separate tokens and mean nothing else; a text
  of blanks only is `Text.isBlank`. Of the blanks, `CodeUnit.isLineBreak` holds of line feed and
  carriage return alone.
- `Text.concat`, `Text.join` and `Text.ofInt` are what messages are put together with.
-/

namespace Formulary

/-- One UTF-16 code unit. -/
abbrev CodeUnit := UInt16

/-- A text is the sequence of its UTF-16 code units. -/
abbrev Text := List CodeUnit

namespace CodeUnit

/-- The unit of a character of the basic plane. -/
def ofChar (c : Char) : CodeUnit := UInt16.ofNat c.toNat

/-- The first half of a surrogate pair. -/
def isHighSurrogate (u : CodeUnit) : Bool := 0xD800 ≤ u.toNat && u.toNat ≤ 0xDBFF

/-- The second half of a surrogate pair. -/
def isLowSurrogate (u : CodeUnit) : Bool := 0xDC00 ≤ u.toNat && u.toNat ≤ 0xDFFF

/-- Whether the unit is a half of a surrogate pair. -/
def isSurrogate (u : CodeUnit) : Bool := u.isHighSurrogate || u.isLowSurrogate

/-- The code point that a high and a low surrogate stand for. -/
def pairValue (high low : CodeUnit) : Nat :=
  0x10000 + (high.toNat - 0xD800) * 0x400 + (low.toNat - 0xDC00)

/-- The character of a unit that stands alone: U+FFFD for a surrogate. -/
def toChar (u : CodeUnit) : Char :=
  if u.isSurrogate then '�' else Char.ofNat u.toNat

/-- An ASCII digit. -/
def isDigit (u : CodeUnit) : Bool := 0x30 ≤ u.toNat && u.toNat ≤ 0x39

/-- The value of an ASCII digit. -/
def digitValue (u : CodeUnit) : Nat := u.toNat - 0x30

/-- A blank: a space of some width, a tabulator, a line or page separator, or the byte order
mark. -/
def isBlank (u : CodeUnit) : Bool :=
  let n := u.toNat
  (0x09 ≤ n && n ≤ 0x0D) || n == 0x20 || n == 0xA0 || n == 0x1680
    || (0x2000 ≤ n && n ≤ 0x200A) || n == 0x2028 || n == 0x2029 || n == 0x202F
    || n == 0x205F || n == 0x3000 || n == 0xFEFF

/-- The line feed. -/
def isLineFeed (u : CodeUnit) : Bool := u == 0x0A

/-- The carriage return. -/
def isCarriageReturn (u : CodeUnit) : Bool := u == 0x0D

/-- A unit that ends a line. -/
def isLineBreak (u : CodeUnit) : Bool := u.isLineFeed || u.isCarriageReturn

end CodeUnit

namespace Text

/-- The code points of a text; a surrogate without its partner is a code point of its own. -/
def codePoints : Text → List Nat
  | [] => []
  | [u] => [u.toNat]
  | high :: low :: rest =>
    if high.isHighSurrogate && low.isLowSurrogate then
      CodeUnit.pairValue high low :: codePoints rest
    else high.toNat :: codePoints (low :: rest)

/-- The units of a code point: two above the basic plane, else one. -/
def ofCodePoint (n : Nat) : Text :=
  if n < 0x10000 then [UInt16.ofNat n]
  else [UInt16.ofNat (0xD800 + (n - 0x10000) / 0x400),
    UInt16.ofNat (0xDC00 + (n - 0x10000) % 0x400)]

/-- The units of a character. -/
def ofChar (c : Char) : Text := ofCodePoint c.toNat

/-- The units of a list of characters. -/
def ofChars (cs : List Char) : Text := cs.flatMap ofChar

/-- The units of a string. -/
def ofString (s : String) : Text := ofChars s.toList

instance : Coe String Text := ⟨ofString⟩

/-- A code point as a character: U+FFFD for a surrogate. -/
def charOfCodePoint (n : Nat) : Char :=
  if 0xD800 ≤ n && n ≤ 0xDFFF then '�' else Char.ofNat n

/-- The string of a text, with U+FFFD for every surrogate that stands alone. -/
def toString (t : Text) : String := String.ofList (t.codePoints.map charOfCodePoint)

/-- A text of blanks only, the empty one among them. -/
def isBlank (t : Text) : Bool := t.all CodeUnit.isBlank

/-- Texts one after the other. -/
def concat (parts : List Text) : Text := parts.flatten

/-- Texts one after the other with a separator between neighbours. -/
def join (separator : Text) : List Text → Text
  | [] => []
  | [part] => part
  | part :: next :: rest => part ++ separator ++ join separator (next :: rest)

/-- A natural number in decimal. -/
def ofNat (n : Nat) : Text := ofChars (Nat.toDigits 10 n)

/-- An integer in decimal, with a minus sign below zero. -/
def ofInt : Int → Text
  | .ofNat n => ofNat n
  | .negSucc n => CodeUnit.ofChar '-' :: ofNat (n + 1)

/-- The number that ASCII digits write in decimal. -/
def decimalValue (digits : Text) : Nat := digits.foldl (fun n d => 10 * n + d.digitValue) 0

end Text

end Formulary
