import Formulary.Compression.Deflate
import Formulary.Text.Utf8

/-!
# Containers of compressed bytes

A deflated stream comes in one of two containers, told apart by their first bytes. A gzip member has
a header with optional fields, and ends with a checksum and the length; a zlib stream has two bytes
of header and ends with a checksum.

- `Container.unpackMember` opens one container and gives the bytes behind it.
- `Container.unpack` opens all members; behind a gzip member another one may follow, and bytes that
  start with zero, or follow a zlib stream, are ignored.
- `Container.pack` makes a gzip member.
- `packText` and `unpackText` do the same for texts.
- `Checksum.crc32` is the cyclic redundancy check of a gzip member, and `Checksum.adler32` is the pair
  of sums of a zlib stream.
-/

namespace Formulary

/-! ## Checksums -/

namespace Checksum

/-- One bit of the cyclic redundancy check. -/
def crcBit (crc : UInt32) : UInt32 :=
  if crc &&& 1 = 1 then (crc >>> 1) ^^^ 0xEDB88320 else crc >>> 1

/-- One byte of the cyclic redundancy check. -/
def crcByte (crc : UInt32) (b : UInt8) : UInt32 :=
  Nat.repeat crcBit 8 (crc ^^^ b.toUInt32)

/-- The cyclic redundancy check of some bytes. -/
def crc32 (bytes : List UInt8) : UInt32 := bytes.foldl crcByte 0xFFFFFFFF ^^^ 0xFFFFFFFF

/-- The sum of the bytes and the sum of the sums, both modulo 65521. -/
def adler32 (bytes : List UInt8) : UInt32 :=
  let (low, high) := bytes.foldl (fun (s : Nat × Nat) b =>
    let low := (s.1 + b.toNat) % 65521
    (low, (s.2 + low) % 65521)) (1, 0)
  UInt32.ofNat (high * 65536 + low)

end Checksum

/-! ## Bytes of a container -/

namespace Container

/-- An open container: what it held and the bytes behind it. -/
structure Member where
  /-- What the container held. -/
  content : List UInt8
  /-- The bytes behind it. -/
  rest : List UInt8
  /-- Whether another member may follow. -/
  continues : Bool

/-- So many bytes and those behind them. -/
def split (count : Nat) (bytes : List UInt8) : Except InflateFault (List UInt8 × List UInt8) :=
  if bytes.length < count then .error .truncated else .ok (bytes.splitAt count)

/-- The number of some bytes, the least significant first. -/
def littleEndian (bytes : List UInt8) : Nat := bytes.foldr (fun b n => b.toNat + 256 * n) 0

/-- The number of some bytes, the most significant first. -/
def bigEndian (bytes : List UInt8) : Nat := bytes.foldl (fun n b => 256 * n + b.toNat) 0

/-- The bytes of a number, the least significant first. -/
def toLittleEndian (count n : Nat) : List UInt8 :=
  (List.range count).map (fun i => UInt8.ofNat (n / Nat.pow 256 i % 256))

/-- The bytes behind a text that ends with a zero. -/
def skipText : List UInt8 → Except InflateFault (List UInt8)
  | [] => .error .truncated
  | b :: rest => if b = 0 then .ok rest else skipText rest

/-- The content of the deflated stream that some bytes start with, and the bytes behind it. -/
def body (window : Nat) (bytes : List UInt8) : Except InflateFault (List UInt8 × List UInt8) := do
  let (output, bits) ← inflate window (Bits.ofBytes bytes)
  return (output.toList, bytes.drop (bytes.length - bits.length / 8))

/-! ## Headers -/

/-- The bytes behind the header of a gzip member, from behind its first two bytes. -/
def skipGzipHeader (whole : List UInt8) : Except InflateFault (List UInt8) := do
  let (start, rest) ← split 2 (whole.drop 2)
  let method := (start.getD 0 0).toNat
  let flags := (start.getD 1 0).toNat
  if method ≠ 8 then .error .unknownMethod
  else if flags / 32 ≠ 0 then .error .unknownFlags
  else
    let (_, rest) ← split 6 rest
    let rest ←
      if flags.testBit 2 then do
        let (size, rest) ← split 2 rest
        let (_, rest) ← split (littleEndian size) rest
        pure rest
      else pure rest
    let rest ← if flags.testBit 3 then skipText rest else pure rest
    let rest ← if flags.testBit 4 then skipText rest else pure rest
    if flags.testBit 1 then
      let (check, behind) ← split 2 rest
      let header := whole.take (whole.length - rest.length)
      if littleEndian check ≠ (Checksum.crc32 header).toNat % 65536 then .error .headerMismatch
      else return behind
    else return rest

/-- A gzip member, from its first two bytes on. -/
def unpackGzip (whole : List UInt8) : Except InflateFault Member := do
  let rest ← skipGzipHeader whole
  let (content, rest) ← body 32768 rest
  let (check, rest) ← split 4 rest
  if littleEndian check ≠ (Checksum.crc32 content).toNat then .error .incorrectData
  else
    let (size, rest) ← split 4 rest
    if littleEndian size ≠ content.length % Nat.pow 2 32 then .error .incorrectLength
    else return { content, rest, continues := true }

/-- A zlib stream whose first two bytes are `method` and `flags`, from behind them. -/
def unpackZlib (method flags : Nat) (rest : List UInt8) : Except InflateFault Member := do
  if (256 * method + flags) % 31 ≠ 0 then .error .incorrectHeader
  else if method % 16 ≠ 8 then .error .unknownMethod
  else if method / 16 > 7 then .error .invalidWindow
  else if flags.testBit 5 then
    let _ ← split 4 rest
    .error .needDictionary
  else
    let (content, rest) ← body (Nat.pow 2 (method / 16 + 8)) rest
    let (check, rest) ← split 4 rest
    if bigEndian check ≠ (Checksum.adler32 content).toNat then .error .incorrectData
    else return { content, rest, continues := false }

/-- The container that some bytes start with. -/
def unpackMember : List UInt8 → Except InflateFault Member
  | a :: b :: rest =>
    if a = 0x1F && b = 0x8B then unpackGzip (a :: b :: rest)
    else unpackZlib a.toNat b.toNat rest
  | _ => .error .truncated

/-- The content of all members, at most `fuel` of them. -/
def unpackMembers : (fuel : Nat) → List UInt8 → Except InflateFault (List UInt8)
  | 0, _ => .error .truncated
  | fuel + 1, bytes => do
    let m ← unpackMember bytes
    if m.continues && !m.rest.isEmpty && m.rest.headD 0 ≠ 0 then
      let more ← unpackMembers fuel m.rest
      return m.content ++ more
    else return m.content

/-- The content of some compressed bytes. -/
def unpack (bytes : List UInt8) : Except InflateFault (List UInt8) :=
  unpackMembers (bytes.length + 1) bytes

/-- Some bytes as a gzip member. -/
def pack (content : List UInt8) : List UInt8 :=
  [0x1F, 0x8B, 8, 0, 0, 0, 0, 0, 0, 3] ++ Bits.toBytes (deflate content)
    ++ toLittleEndian 4 (Checksum.crc32 content).toNat ++ toLittleEndian 4 content.length

end Container

/-- A text as compressed bytes. -/
def packText (t : Text) : List UInt8 := Container.pack t.toUtf8

/-- The text that some compressed bytes hold, without a byte order mark at its start. -/
def unpackText (bytes : List UInt8) : Except InflateFault Text := do
  let content ← Container.unpack bytes
  return (Text.ofUtf8 content).withoutMark

end Formulary
