/-!
# Bits and codes of variable length

A byte gives its bits from the least significant one up, and numbers are read the same way. A code
gives every symbol a string of bits, none of which starts another. The lengths alone fix it: shorter
strings come first, and among strings of one length the symbols stand in order.

- `Bits.ofBytes` and `Bits.toBytes` go between bytes and bits.
- `Bits.take?` reads a number of some bits, and `Bits.align` drops the rest of a byte.
- `HuffmanCode.ofLengths` makes the code of some lengths.
- `HuffmanCode.isUsable` holds of a code that uses every string of bits, and of one that has a
  single symbol or none.
- `HuffmanCode.read` reads a symbol.
-/

namespace Formulary

/-! ## Bits -/

/-- Bits in the order in which they are read. -/
abbrev Bits := List Bool

namespace Bits

/-- So many bits of a number, the least significant first. -/
def ofNat (count n : Nat) : Bits := (List.range count).map n.testBit

/-- So many bits of a number, the most significant first. -/
def ofNatReversed (count n : Nat) : Bits := (ofNat count n).reverse

/-- The bits of some bytes. -/
def ofBytes (bytes : List UInt8) : Bits := bytes.flatMap (fun b => ofNat 8 b.toNat)

/-- The number of some bits, the least significant first. -/
def toNat : Bits → Nat
  | [] => 0
  | b :: rest => b.toNat + 2 * toNat rest

/-- The number of the next bits and the bits behind them, if there are so many. -/
def take? : (count : Nat) → Bits → Option (Nat × Bits)
  | 0, bits => some (0, bits)
  | _ + 1, [] => none
  | count + 1, b :: rest => do
    let (n, rest) ← take? count rest
    return (b.toNat + 2 * n, rest)

/-- The bits behind the present byte, where all bits together are whole bytes. -/
def align (bits : Bits) : Bits := bits.drop (bits.length % 8)

/-- The bytes of some bits, with zeros behind the last one. -/
def toBytes : Bits → List UInt8
  | a :: b :: c :: d :: e :: f :: g :: h :: rest =>
    UInt8.ofNat (toNat [a, b, c, d, e, f, g, h]) :: toBytes rest
  | [] => []
  | bits => [UInt8.ofNat (toNat bits)]

end Bits

/-! ## Codes -/

/-- A code, by the number of symbols of each length and the symbols in the order of their
strings. -/
structure HuffmanCode where
  /-- How many symbols have one bit, two bits and so on, up to the longest. -/
  counts : List Nat
  /-- The symbols in the order of their strings. -/
  symbols : Array Nat
  deriving Repr

/-- What comes of reading a symbol. -/
inductive SymbolRead where
  /-- A symbol and the bits behind it. -/
  | symbol (value : Nat) (rest : Bits)
  /-- The bits start no symbol. -/
  | invalid (rest : Bits)
  /-- The bits end within a symbol. -/
  | exhausted

namespace HuffmanCode

/-- The symbols of one length, in order. -/
def symbolsOfLength (lengths : List Nat) (length : Nat) : List Nat :=
  (lengths.zipIdx.filter (fun entry => entry.1 = length)).map (·.2)

/-- The code in which each symbol has the given length; zero means no string at all. -/
def ofLengths (lengths : List Nat) : HuffmanCode :=
  let longest := max 1 (lengths.foldl max 0)
  let groups := (List.range longest).map (fun i => symbolsOfLength lengths (i + 1))
  { counts := groups.map List.length, symbols := groups.flatten.toArray }

/-- Whether no symbol has a string. -/
def isEmpty (code : HuffmanCode) : Bool := code.symbols.isEmpty

/-- How many strings of the longest length are unused, where `free` strings of the length before
are; none if more are used than there are. -/
def unused? : (free : Nat) → List Nat → Option Nat
  | free, [] => some free
  | free, count :: rest => if 2 * free < count then none else unused? (2 * free - count) rest

/-- Whether a code has a string for every sequence of bits. A code without symbols passes, and so
does one with strings of one bit only, if `allowSingle`. -/
def isUsable (code : HuffmanCode) (allowSingle : Bool) : Bool :=
  code.isEmpty ||
    match unused? 1 code.counts with
    | none => false
    | some 0 => true
    | some _ => allowSingle && code.counts.length = 1

/-- The symbol that some bits start with. Of the strings of the present length, `count` follow the
one numbered `first`, and `index` symbols have shorter strings. -/
def readFrom (symbols : Array Nat) : (counts : List Nat) → (value first index : Nat) → Bits →
    SymbolRead
  | [], _, _, _, bits => .invalid bits
  | _ :: _, _, _, _, [] => .exhausted
  | count :: counts, value, first, index, bit :: bits =>
    let value := 2 * value + bit.toNat
    let first := 2 * first
    if value < first + count then .symbol (symbols.getD (index + (value - first)) 0) bits
    else readFrom symbols counts value (first + count) (index + count) bits

/-- The symbol that some bits start with. -/
def read (code : HuffmanCode) (bits : Bits) : SymbolRead := readFrom code.symbols code.counts 0 0 0 bits

end HuffmanCode

end Formulary
