import Formulary.Compression.Inflate
import Std.Data.HashMap

/-!
# Deflating

Bytes are written as one block in the fixed codes. Where three bytes or more have stood before, a
length and a distance back to them are written in their place.

- `Deflate.items` cuts the bytes into single bytes and repetitions.
- `deflate` writes them as bits.
-/

namespace Formulary

namespace Deflate

/-- A part of the output. -/
inductive Item where
  /-- A byte. -/
  | byte (value : UInt8)
  /-- Bytes that have stood before. -/
  | repeated (length distance : Nat)

/-- How far two places agree, up to a limit. -/
def agreement (bytes : Array UInt8) (i j : Nat) : (limit : Nat) → Nat
  | 0 => 0
  | limit + 1 =>
    if i < bytes.size && bytes.getD i 0 == bytes.getD j 0 then
      agreement bytes (i + 1) (j + 1) limit + 1
    else 0

/-- The three bytes at a place as one number. -/
def key (bytes : Array UInt8) (i : Nat) : Nat :=
  (bytes.getD i 0).toNat * 65536 + (bytes.getD (i + 1) 0).toNat * 256 + (bytes.getD (i + 2) 0).toNat

/-- The length and the distance of bytes that have stood before, where `seen` holds the last place of
three bytes. -/
def repetition? (bytes : Array UInt8) (seen : Std.HashMap Nat Nat) (i : Nat) : Option (Nat × Nat) :=
  match seen[key bytes i]? with
  | none => none
  | some j =>
    let length := agreement bytes i j 258
    if 3 ≤ length && i - j ≤ 32768 then some (length, i - j) else none

/-- The items from a place on, at most `fuel` of them. -/
def itemsFrom (bytes : Array UInt8) : (fuel : Nat) → Nat → Std.HashMap Nat Nat → List Item
  | 0, _, _ => []
  | fuel + 1, i, seen =>
    if i < bytes.size then
      match repetition? bytes seen i with
      | some (length, distance) =>
        .repeated length distance :: itemsFrom bytes fuel (i + length) (seen.insert (key bytes i) i)
      | none =>
        .byte (bytes.getD i 0) :: itemsFrom bytes fuel (i + 1) (seen.insert (key bytes i) i)
    else []

/-- The items of some bytes. -/
def items (bytes : List UInt8) : List Item := itemsFrom bytes.toArray bytes.length 0 ∅

/-- The string of a symbol in the fixed code for bytes and lengths. -/
def literalBits (s : Nat) : Bits :=
  if s < 144 then Bits.ofNatReversed 8 (0x30 + s)
  else if s < 256 then Bits.ofNatReversed 9 (0x190 + (s - 144))
  else if s < 280 then Bits.ofNatReversed 7 (s - 256)
  else Bits.ofNatReversed 8 (0xC0 + (s - 280))

/-- The last entry of a table whose least value is at most `n`: its index, the excess and the
number of extra bits. -/
def entryOf (table : Array (Nat × Nat)) (n : Nat) : Nat × Nat × Nat :=
  let index := (table.toList.takeWhile (fun e => e.1 ≤ n)).length - 1
  let (base, extra) := table.getD index (0, 0)
  (index, n - base, extra)

/-- The bits of an item. -/
def itemBits : Item → Bits
  | .byte value => literalBits value.toNat
  | .repeated length distance =>
    let (l, lengthExcess, lengthExtra) := entryOf Inflate.lengthTable length
    let (d, distanceExcess, distanceExtra) := entryOf Inflate.distanceTable distance
    literalBits (257 + l) ++ Bits.ofNat lengthExtra lengthExcess ++ Bits.ofNatReversed 5 d
      ++ Bits.ofNat distanceExtra distanceExcess

end Deflate

/-- Some bytes as a deflated stream. -/
def deflate (bytes : List UInt8) : Bits :=
  Bits.ofNat 1 1 ++ Bits.ofNat 2 1 ++ (Deflate.items bytes).flatMap Deflate.itemBits
    ++ Deflate.literalBits 256

end Formulary
