import Formulary.Compression.Container
import Formulary.Proofs.Compression.Repetition
import Formulary.Proofs.Text.Utf8

/-!
# Opening what was packed

A packed container opens to the bytes it was made of: the header is passed over, the stream is
inflated, and the checksum and the length are those of the bytes.

- `Container.littleEndian_toLittleEndian` reads a number back from its bytes.
- `Container.unpack_pack` opens a container, `unpackText_of_unpack` one that holds a text.
-/

namespace Formulary

namespace Container

theorem split_append {count : Nat} {bytes : List UInt8} (h : bytes.length = count)
    (rest : List UInt8) : split count (bytes ++ rest) = .ok (bytes, rest) := by
  rw [split, if_neg (by rw [List.length_append]; omega), List.splitAt_eq, List.take_left' h,
    List.drop_left' h]

/-! ## Numbers -/

theorem length_toLittleEndian (count n : Nat) : (toLittleEndian count n).length = count := by
  rw [toLittleEndian, List.length_map, List.length_range]

theorem toLittleEndian_succ (count n : Nat) :
    toLittleEndian (count + 1) n = UInt8.ofNat (n % 256) :: toLittleEndian count (n / 256) := by
  rw [toLittleEndian, List.range_succ_eq_map, List.map_cons, List.map_map, toLittleEndian]
  congr 1
  · rw [show Nat.pow 256 0 = 1 from rfl, Nat.div_one]
  · refine List.map_congr_left fun i _ => ?_
    show UInt8.ofNat (n / 256 ^ (i + 1) % 256) = UInt8.ofNat (n / 256 / 256 ^ i % 256)
    rw [Nat.div_div_eq_div_mul, Nat.pow_succ']

/-- So many bytes hold a number up to multiples of what they have room for. -/
theorem littleEndian_toLittleEndian (count n : Nat) :
    littleEndian (toLittleEndian count n) = n % 256 ^ count := by
  induction count generalizing n with
  | zero => rw [Nat.pow_zero, Nat.mod_one]; rfl
  | succ count ih =>
      have hfirst : (UInt8.ofNat (n % 256)).toNat = n % 256 :=
        UInt8.toNat_ofNat_of_lt' (Nat.mod_lt n (by decide))
      rw [toLittleEndian_succ]
      show (UInt8.ofNat (n % 256)).toNat + 256 * littleEndian (toLittleEndian count (n / 256)) = _
      rw [ih, hfirst, Nat.pow_succ', Nat.mod_mul]

/-! ## Members -/

/-- The header that is written has no optional fields. -/
theorem skipGzipHeader_plain (rest : List UInt8) :
    skipGzipHeader ([0x1F, 0x8B, 8, 0, 0, 0, 0, 0, 0, 3] ++ rest) = .ok rest := by
  have hstart : split 2 (([0x1F, 0x8B, 8, 0, 0, 0, 0, 0, 0, 3] ++ rest).drop 2)
      = .ok ([8, 0], [0, 0, 0, 0, 0, 3] ++ rest) := by
    show split 2 ([8, 0] ++ ([0, 0, 0, 0, 0, 3] ++ rest)) = _
    exact split_append rfl _
  have hrest : split 6 ([0, 0, 0, 0, 0, 3] ++ rest) = .ok ([0, 0, 0, 0, 0, 3], rest) :=
    split_append rfl rest
  have hflags : ∀ k, (List.getD [8, 0] 1 (0 : UInt8)).toNat.testBit k = false := Nat.zero_testBit
  rw [skipGzipHeader, hstart]
  dsimp only [bind, Except.bind]
  rw [if_neg (by decide), if_neg (by decide), hrest]
  simp only [hflags, Bool.false_eq_true, if_false]
  rfl

/-- The stream of a container is inflated, and what follows is left. -/
theorem body_deflate (content rest : List UInt8) :
    body 32768 (Bits.toBytes (deflate content) ++ rest) = .ok (content, rest) := by
  obtain ⟨padding, hpadding, hbits⟩ := Bits.ofBytes_toBytes (deflate content)
  rw [body, Bits.ofBytes_append, hbits, List.append_assoc, inflate_deflate]
  -- what is left of the last byte of the stream is less than a byte
  have hrest : (padding ++ Bits.ofBytes rest).length / 8 = rest.length := by
    rw [List.length_append, Bits.length_ofBytes]
    omega
  show Except.ok (content, List.drop (_ - (padding ++ Bits.ofBytes rest).length / 8) _) = _
  rw [hrest, List.length_append, Nat.add_sub_cancel, List.drop_left]

theorem unpackGzip_pack (content : List UInt8) :
    unpackGzip (pack content) = .ok ⟨content, [], true⟩ := by
  have hcheck : littleEndian (toLittleEndian 4 (Checksum.crc32 content).toNat)
      = (Checksum.crc32 content).toNat := by
    rw [littleEndian_toLittleEndian]
    exact Nat.mod_eq_of_lt (Checksum.crc32 content).toNat_lt
  have hsize : littleEndian (toLittleEndian 4 content.length) = content.length % Nat.pow 2 32 :=
    littleEndian_toLittleEndian 4 content.length
  rw [unpackGzip, pack, List.append_assoc, List.append_assoc, skipGzipHeader_plain]
  dsimp only [bind, Except.bind]
  rw [body_deflate]
  dsimp only
  rw [split_append (length_toLittleEndian 4 _)]
  dsimp only
  -- the length stands last, and nothing is left behind it
  rw [if_neg (fun h => h hcheck), ← List.append_nil (toLittleEndian 4 content.length),
    split_append (length_toLittleEndian 4 _)]
  dsimp only
  rw [if_neg (fun h => h hsize)]
  rfl

/-- What was packed is opened again. -/
theorem unpack_pack (content : List UInt8) : unpack (pack content) = .ok content := by
  have hmember : unpackMember (pack content) = .ok ⟨content, [], true⟩ := unpackGzip_pack content
  rw [unpack, unpackMembers, hmember]
  rfl

end Container

/-- A text in which no surrogate stands alone is read back from bytes that open to its own. -/
theorem unpackText_of_unpack {packed : List UInt8} {t : Text} (h : t.WellFormed)
    (hpacked : Container.unpack packed = .ok t.toUtf8) : unpackText packed = .ok t.withoutMark := by
  rw [unpackText, hpacked]
  show Except.ok (Text.ofUtf8 t.toUtf8).withoutMark = _
  rw [Text.ofUtf8_toUtf8 h]

end Formulary
