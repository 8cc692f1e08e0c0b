import Formulary.Text.Basic

/-!
# UTF-8

Texts are stored as UTF-8. Writing turns a surrogate that stands alone into U+FFFD. Reading never
fails: each longest run of bytes that starts a character and does not finish it becomes one U+FFFD.

- `Text.toUtf8` writes and `Text.ofUtf8` reads.
- `Text.withoutMark` drops a byte order mark at the start of a text.
-/

namespace Formulary

namespace Utf8

/-- What stands for something that is no character. -/
def replacement : CodeUnit := 0xFFFD

/-- The bytes of a code point. -/
def encodeCodePoint (n : Nat) : List UInt8 :=
  if n < 0x80 then [UInt8.ofNat n]
  else if n < 0x800 then [UInt8.ofNat (0xC0 + n / 0x40), UInt8.ofNat (0x80 + n % 0x40)]
  else if n < 0x10000 then
    [UInt8.ofNat (0xE0 + n / 0x1000), UInt8.ofNat (0x80 + n / 0x40 % 0x40),
      UInt8.ofNat (0x80 + n % 0x40)]
  else
    [UInt8.ofNat (0xF0 + n / 0x40000), UInt8.ofNat (0x80 + n / 0x1000 % 0x40),
      UInt8.ofNat (0x80 + n / 0x40 % 0x40), UInt8.ofNat (0x80 + n % 0x40)]

/-- A character of which some bytes are still to come. -/
structure Pending where
  /-- How many bytes are still to come. -/
  missing : Nat
  /-- The least value of the next byte. -/
  low : Nat
  /-- The greatest value of the next byte. -/
  high : Nat
  /-- The bits read so far. -/
  value : Nat
  deriving DecidableEq, Repr

/-- The character that a byte starts, if it starts one of several bytes. -/
def lead? (b : Nat) : Option Pending :=
  if 0xC2 ≤ b && b ≤ 0xDF then some ⟨1, 0x80, 0xBF, b - 0xC0⟩
  else if 0xE0 ≤ b && b ≤ 0xEF then
    some ⟨2, if b = 0xE0 then 0xA0 else 0x80, if b = 0xED then 0x9F else 0xBF, b - 0xE0⟩
  else if 0xF0 ≤ b && b ≤ 0xF4 then
    some ⟨3, if b = 0xF0 then 0x90 else 0x80, if b = 0xF4 then 0x8F else 0xBF, b - 0xF0⟩
  else none

/-- The units that a byte gives between characters, and what it leaves pending. -/
def begin (b : Nat) : Text × Option Pending :=
  if b < 0x80 then ([UInt16.ofNat b], none)
  else match lead? b with
    | some p => ([], some p)
    | none => ([replacement], none)

/-- The units that a byte gives, and what it leaves pending. A byte that does not go on with the
pending character ends it and is looked at anew. -/
def step : Option Pending → Nat → Text × Option Pending
  | none, b => begin b
  | some p, b =>
    if p.low ≤ b && b ≤ p.high then
      let value := p.value * 0x40 + (b - 0x80)
      if p.missing ≤ 1 then (Text.ofCodePoint value, none)
      else ([], some ⟨p.missing - 1, 0x80, 0xBF, value⟩)
    else
      let (units, pending) := begin b
      (replacement :: units, pending)

/-- The units of some bytes behind a pending character. -/
def decodeFrom : Option Pending → List UInt8 → Text
  | none, [] => []
  | some _, [] => [replacement]
  | pending, b :: rest =>
    let (units, pending) := step pending b.toNat
    units ++ decodeFrom pending rest

end Utf8

/-- The bytes of a text. -/
def Text.toUtf8 (t : Text) : List UInt8 :=
  t.codePoints.flatMap (fun n =>
    Utf8.encodeCodePoint (if 0xD800 ≤ n && n ≤ 0xDFFF then 0xFFFD else n))

/-- The text of some bytes. -/
def Text.ofUtf8 (bytes : List UInt8) : Text := Utf8.decodeFrom none bytes

/-- A text without the byte order mark that it may start with. -/
def Text.withoutMark : Text → Text
  | u :: rest => if u = 0xFEFF then rest else u :: rest
  | [] => []

end Formulary
