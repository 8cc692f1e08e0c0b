import Formulary.Compression.Huffman
import Formulary.Text.Basic

/-!
# Inflating

A deflated stream is a sequence of blocks: stored bytes, or symbols of a fixed or a described code.
A symbol is a byte, the end of the block, or a length, which a distance back into the output follows.

- `InflateFault` lists what can be wrong with a compressed stream, its container included.
- `Inflate.block` inflates one block, and `inflate` all blocks up to the last.
-/

namespace Formulary

/-- What is wrong with compressed bytes. -/
inductive InflateFault where
  | incorrectHeader
  | unknownMethod
  | invalidWindow
  | unknownFlags
  | headerMismatch
  | needDictionary
  | invalidBlockType
  | invalidStoredLengths
  | tooManySymbols
  | invalidCodeLengths
  | invalidRepeat
  | missingEndOfBlock
  | invalidLiteralLengths
  | invalidDistances
  | invalidLiteralCode
  | invalidDistanceCode
  | distanceTooFar
  | incorrectData
  | incorrectLength
  | truncated
  deriving DecidableEq, Repr

/-- The wording of a fault. -/
def InflateFault.message : InflateFault → Text
  | .incorrectHeader => "incorrect header check"
  | .unknownMethod => "unknown compression method"
  | .invalidWindow => "invalid window size"
  | .unknownFlags => "unknown header flags set"
  | .headerMismatch => "header crc mismatch"
  | .needDictionary => "need dictionary"
  | .invalidBlockType => "invalid block type"
  | .invalidStoredLengths => "invalid stored block lengths"
  | .tooManySymbols => "too many length or distance symbols"
  | .invalidCodeLengths => "invalid code lengths set"
  | .invalidRepeat => "invalid bit length repeat"
  | .missingEndOfBlock => "invalid code -- missing end-of-block"
  | .invalidLiteralLengths => "invalid literal/lengths set"
  | .invalidDistances => "invalid distances set"
  | .invalidLiteralCode => "invalid literal/length code"
  | .invalidDistanceCode => "invalid distance code"
  | .distanceTooFar => "invalid distance too far back"
  | .incorrectData => "incorrect data check"
  | .incorrectLength => "incorrect length check"
  | .truncated => "buffer error"

namespace Inflate

/-- The number of the next bits. -/
def number (count : Nat) (bits : Bits) : Except InflateFault (Nat × Bits) :=
  match bits.take? count with
  | some read => .ok read
  | none => .error .truncated

/-- The next symbol of a code. -/
def symbol (code : HuffmanCode) (fault : InflateFault) (bits : Bits) :
    Except InflateFault (Nat × Bits) :=
  match code.read bits with
  | .symbol value rest => .ok (value, rest)
  | .invalid _ => .error fault
  | .exhausted => .error .truncated

/-! ## Lengths and distances -/

/-- The least length of each length symbol and the number of its extra bits. -/
def lengthTable : Array (Nat × Nat) :=
  #[(3, 0), (4, 0), (5, 0), (6, 0), (7, 0), (8, 0), (9, 0), (10, 0), (11, 1), (13, 1), (15, 1),
    (17, 1), (19, 2), (23, 2), (27, 2), (31, 2), (35, 3), (43, 3), (51, 3), (59, 3), (67, 4),
    (83, 4), (99, 4), (115, 4), (131, 5), (163, 5), (195, 5), (227, 5), (258, 0)]

/-- The least distance of each distance symbol and the number of its extra bits. -/
def distanceTable : Array (Nat × Nat) :=
  #[(1, 0), (2, 0), (3, 0), (4, 0), (5, 1), (7, 1), (9, 2), (13, 2), (17, 3), (25, 3), (33, 4),
    (49, 4), (65, 5), (97, 5), (129, 6), (193, 6), (257, 7), (385, 7), (513, 8), (769, 8),
    (1025, 9), (1537, 9), (2049, 10), (3073, 10), (4097, 11), (6145, 11), (8193, 12), (12289, 12),
    (16385, 13), (24577, 13)]

/-- A table's value for a symbol, with the extra bits read. -/
def extended (table : Array (Nat × Nat)) (fault : InflateFault) (index : Nat) (bits : Bits) :
    Except InflateFault (Nat × Bits) :=
  match table[index]? with
  | none => .error fault
  | some (base, extra) => do
    let (n, bits) ← number extra bits
    return (base + n, bits)

/-- The output with so many bytes copied from a distance back; bytes just copied count. -/
def copyBack (distance : Nat) : (length : Nat) → Array UInt8 → Array UInt8
  | 0, output => output
  | length + 1, output =>
    copyBack distance length (output.push (output.getD (output.size - distance) 0))

/-! ## Blocks -/

/-- A pair of codes: one for bytes and lengths, one for distances. -/
structure Codes where
  /-- The code for bytes and lengths. -/
  literal : HuffmanCode
  /-- The code for distances. -/
  distance : HuffmanCode

/-- The codes that are fixed once and for all. -/
def fixedCodes : Codes where
  literal := .ofLengths (List.replicate 144 8 ++ List.replicate 112 9 ++ List.replicate 24 7
    ++ List.replicate 8 8)
  distance := .ofLengths (List.replicate 32 5)

/-- The symbols of a block up to its end, at most `fuel` of them. A distance reaches back at most
`window` bytes. -/
def symbols (codes : Codes) (window : Nat) : (fuel : Nat) → Array UInt8 → Bits →
    Except InflateFault (Array UInt8 × Bits)
  | 0, _, _ => .error .truncated
  | fuel + 1, output, bits => do
    let (s, bits) ← symbol codes.literal .invalidLiteralCode bits
    if s < 256 then symbols codes window fuel (output.push (UInt8.ofNat s)) bits
    else if s = 256 then return (output, bits)
    else
      let (length, bits) ← extended lengthTable .invalidLiteralCode (s - 257) bits
      let (d, bits) ← symbol codes.distance .invalidDistanceCode bits
      let (distance, bits) ← extended distanceTable .invalidDistanceCode d bits
      if distance > window || distance > output.size then .error .distanceTooFar
      else symbols codes window fuel (copyBack distance length output) bits

/-- So many bytes as they stand. -/
def storedBytes : (count : Nat) → Array UInt8 → Bits → Except InflateFault (Array UInt8 × Bits)
  | 0, output, bits => .ok (output, bits)
  | count + 1, output, bits => do
    let (b, bits) ← number 8 bits
    storedBytes count (output.push (UInt8.ofNat b)) bits

/-- A block of stored bytes. -/
def stored (output : Array UInt8) (bits : Bits) : Except InflateFault (Array UInt8 × Bits) := do
  let (header, bits) ← number 32 bits.align
  let length := header % 65536
  if header / 65536 ≠ 65535 - length then .error .invalidStoredLengths
  else storedBytes length output bits

/-- The order in which the lengths of the code of lengths are listed. -/
def lengthOrder : List Nat := [16, 17, 18, 0, 8, 7, 9, 6, 10, 5, 11, 4, 12, 3, 13, 2, 14, 1, 15]

/-- So many numbers of three bits. -/
def shortNumbers : (count : Nat) → Bits → Except InflateFault (List Nat × Bits)
  | 0, bits => .ok ([], bits)
  | count + 1, bits => do
    let (n, bits) ← number 3 bits
    let (rest, bits) ← shortNumbers count bits
    return (n :: rest, bits)

/-- The code of lengths, from the lengths as they are listed. -/
def lengthCode (listed : List Nat) : HuffmanCode :=
  let entries := lengthOrder.zip listed
  .ofLengths ((List.range 19).map (fun s => ((entries.find? (fun e => e.1 = s)).map (·.2)).getD 0))

/-- The next symbol of the code of lengths; in a code without symbols each bit is a zero. -/
def lengthSymbol (code : HuffmanCode) (bits : Bits) : Except InflateFault (Nat × Bits) :=
  if code.isEmpty then do
    let (_, bits) ← number 1 bits
    return (0, bits)
  else symbol code .invalidCodeLengths bits

/-- A length that a symbol repeats, how often, and the bits behind. -/
def repetition (lengths : Array Nat) (s : Nat) (bits : Bits) :
    Except InflateFault (Nat × Nat × Bits) := do
  if s < 16 then return (s, 1, bits)
  else if s = 16 then
    let (n, bits) ← number 2 bits
    match lengths.back? with
    | none => .error .invalidRepeat
    | some last => return (last, n + 3, bits)
  else if s = 17 then
    let (n, bits) ← number 3 bits
    return (0, n + 3, bits)
  else
    let (n, bits) ← number 7 bits
    return (0, n + 11, bits)

/-- Lengths up to `total` of them, with at most `fuel` symbols. -/
def codeLengths (code : HuffmanCode) (total : Nat) : (fuel : Nat) → Array Nat → Bits →
    Except InflateFault (Array Nat × Bits)
  | 0, lengths, bits => .ok (lengths, bits)
  | fuel + 1, lengths, bits =>
    if total ≤ lengths.size then .ok (lengths, bits)
    else do
      let (s, bits) ← lengthSymbol code bits
      let (length, count, bits) ← repetition lengths s bits
      if total < lengths.size + count then .error .invalidRepeat
      else codeLengths code total fuel (lengths ++ Array.replicate count length) bits

/-- The codes that a block describes. -/
def describedCodes (bits : Bits) : Except InflateFault (Codes × Bits) := do
  let (header, bits) ← number 14 bits
  let literals := header % 32 + 257
  let distances := header / 32 % 32 + 1
  if literals > 286 || distances > 30 then .error .tooManySymbols
  else
    let (listed, bits) ← shortNumbers (header / 1024 + 4) bits
    let code := lengthCode listed
    if !code.isUsable false then .error .invalidCodeLengths
    else
      let total := literals + distances
      let (lengths, bits) ← codeLengths code total total #[] bits
      if lengths.getD 256 0 = 0 then .error .missingEndOfBlock
      else
        let literal := HuffmanCode.ofLengths (lengths.toList.take literals)
        let distance := HuffmanCode.ofLengths (lengths.toList.drop literals)
        if !literal.isUsable true then .error .invalidLiteralLengths
        else if !distance.isUsable true then .error .invalidDistances
        else return ({ literal, distance }, bits)

/-- A block of some type behind its header. -/
def block (window type : Nat) (output : Array UInt8) (bits : Bits) :
    Except InflateFault (Array UInt8 × Bits) :=
  match type with
  | 0 => stored output bits
  | 1 => symbols fixedCodes window (bits.length + 1) output bits
  | 2 => do
    let (codes, bits) ← describedCodes bits
    symbols codes window (bits.length + 1) output bits
  | _ => .error .invalidBlockType

/-- Blocks up to the last, at most `fuel` of them. -/
def blocks (window : Nat) : (fuel : Nat) → Array UInt8 → Bits →
    Except InflateFault (Array UInt8 × Bits)
  | 0, _, _ => .error .truncated
  | fuel + 1, output, bits => do
    let (header, bits) ← number 3 bits
    let (output, bits) ← block window (header / 2) output bits
    if header % 2 = 1 then return (output, bits) else blocks window fuel output bits

end Inflate

/-- The output of a deflated stream and the bits behind it. -/
def inflate (window : Nat) (bits : Bits) : Except InflateFault (Array UInt8 × Bits) :=
  Inflate.blocks window (bits.length + 1) #[] bits

end Formulary
