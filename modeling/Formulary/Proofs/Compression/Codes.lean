import Formulary.Compression.Deflate
import Mathlib.Algebra.Group.Nat.Defs

/-!
# Reading bits, symbols and table entries back

What the writer puts into a stream piece by piece is what the reader takes out of it, whatever follows:
numbers of some bits, symbols of the fixed codes, and values of a table with their extra bits.

- `Bits.take?_ofNat` reads a number back, and `Bits.ofBytes_toBytes` the bits of bytes.
- `Inflate.symbol_literalBits` and `Inflate.symbol_distanceBits` read symbols of the fixed codes.
- `Inflate.extended_entryOf` reads a value through a table that leaves no gaps.
-/

namespace Formulary

namespace Bits

/-! ## Numbers -/

@[simp] theorem length_ofNat (count n : Nat) : (ofNat count n).length = count := by
  rw [ofNat, List.length_map, List.length_range]

/-- The lowest bit comes first. -/
theorem ofNat_succ (count n : Nat) : ofNat (count + 1) n = n.testBit 0 :: ofNat count (n / 2) := by
  rw [ofNat, List.range_succ_eq_map, List.map_cons, List.map_map, ofNat]
  congr 1
  refine List.map_congr_left fun i _ => ?_
  exact Nat.testBit_succ n i

theorem toNat_testBit (n k : Nat) : (n.testBit k).toNat = n / 2 ^ k % 2 := by
  rw [Nat.testBit_eq_decide_div_mod_eq]
  rcases Nat.mod_two_eq_zero_or_one (n / 2 ^ k) with h | h <;> rw [h] <;> rfl

/-- In reverse the highest bit comes first. -/
theorem ofNatReversed_succ (count n : Nat) :
    ofNatReversed (count + 1) n = n.testBit count :: ofNatReversed count n := by
  rw [ofNatReversed, ofNat, List.range_succ, List.map_append, List.reverse_append]
  rfl

/-- A number that fits into some bits is read back from them. -/
theorem take?_ofNat {count n : Nat} (h : n < 2 ^ count) (rest : Bits) :
    take? count (ofNat count n ++ rest) = some (n, rest) := by
  induction count generalizing n with
  | zero =>
      have hzero : n = 0 := by omega
      rw [hzero]
      rfl
  | succ count ih =>
      have hhalf : n / 2 < 2 ^ count := by
        rw [Nat.pow_succ] at h
        omega
      have hvalue : (n.testBit 0).toNat + 2 * (n / 2) = n := by
        rw [toNat_testBit]
        omega
      rw [ofNat_succ, List.cons_append, take?, ih hhalf]
      show some (_, rest) = _
      rw [hvalue]

/-! ## Bytes -/

/-- So many bits write less than the power of two. -/
theorem toNat_lt (bits : Bits) : toNat bits < 2 ^ bits.length := by
  induction bits with
  | nil => exact Nat.one_pos
  | cons b rest ih =>
      rw [toNat, List.length_cons, Nat.pow_succ]
      have hb := b.toNat_le
      omega

/-- The bits of the number of some bits are these bits, and zeros behind them. -/
theorem ofNat_toNat {count : Nat} {bits : Bits} (h : bits.length ≤ count) :
    ofNat count (toNat bits) = bits ++ List.replicate (count - bits.length) false := by
  induction bits generalizing count with
  | nil =>
      rw [toNat, ofNat, List.nil_append, List.eq_replicate_iff]
      refine ⟨by simp, ?_⟩
      intro b hb
      obtain ⟨i, -, rfl⟩ := List.mem_map.mp hb
      exact Nat.zero_testBit i
  | cons b rest ih =>
      obtain ⟨count, rfl⟩ : ∃ k, count = k + 1 := ⟨count - 1, by simp at h; omega⟩
      have hb := b.toNat_le
      have hhalf : (b.toNat + 2 * toNat rest) / 2 = toNat rest := by omega
      have hbit : (b.toNat + 2 * toNat rest).testBit 0 = b := by
        have hodd : (b.toNat + 2 * toNat rest) % 2 = b.toNat := by omega
        rw [Nat.testBit_zero, hodd]
        cases b <;> rfl
      rw [toNat, ofNat_succ, hhalf, hbit, ih (by simpa using h), List.length_cons,
        Nat.add_sub_add_right]
      rfl

theorem ofBytes_cons (b : UInt8) (bytes : List UInt8) :
    ofBytes (b :: bytes) = ofNat 8 b.toNat ++ ofBytes bytes := List.flatMap_cons

/-- The bits of bytes stand one behind the other. -/
theorem ofBytes_append (bytes more : List UInt8) :
    ofBytes (bytes ++ more) = ofBytes bytes ++ ofBytes more := List.flatMap_append

@[simp] theorem length_ofBytes (bytes : List UInt8) : (ofBytes bytes).length = 8 * bytes.length := by
  induction bytes with
  | nil => rfl
  | cons b bytes ih =>
      rw [ofBytes_cons, List.length_append, length_ofNat, ih, List.length_cons]
      omega

/-- The bits of one byte that up to eight bits are put into. -/
theorem ofNat_byte {bits : Bits} (h : bits.length ≤ 8) :
    ofNat 8 (UInt8.ofNat (toNat bits)).toNat
      = bits ++ List.replicate (8 - bits.length) false := by
  have hlt : toNat bits < 256 :=
    Nat.lt_of_lt_of_le (toNat_lt bits) (Nat.pow_le_pow_right Nat.two_pos h)
  rw [UInt8.toNat_ofNat_of_lt' hlt, ofNat_toNat h]

/-- The bits put into bytes come out again, with the rest of the last byte behind them. -/
theorem ofBytes_toBytes (bits : Bits) :
    ∃ padding, padding.length < 8 ∧ ofBytes (toBytes bits) = bits ++ padding := by
  fun_induction toBytes bits with
  | case1 a b c d e f g h rest ih =>
      obtain ⟨padding, hpadding, hrest⟩ := ih
      refine ⟨padding, hpadding, ?_⟩
      rw [ofBytes_cons, ofNat_byte (by simp), hrest]
      rfl
  | case2 => exact ⟨[], by decide, rfl⟩
  | case3 bits hlong hempty =>
      have hlength : bits.length < 8 := by
        rcases bits with _ | ⟨a, _ | ⟨b, _ | ⟨c, _ | ⟨d, _ | ⟨e, _ | ⟨f, _ | ⟨g, _ | ⟨h, rest⟩⟩⟩⟩⟩⟩⟩⟩
        case cons.cons.cons.cons.cons.cons.cons.cons => exact (hlong a b c d e f g h rest rfl).elim
        all_goals simp
      refine ⟨List.replicate (8 - bits.length) false, ?_, ?_⟩
      · rw [List.length_replicate]
        have hpos := List.length_pos_iff.mpr hempty
        omega
      · rw [ofBytes_cons, ofNat_byte (Nat.le_of_lt hlength)]
        exact List.append_nil _

end Bits

/-! ## Symbols -/

namespace HuffmanCode

/-- Bits behind a symbol do not change how it is read. -/
theorem readFrom_append {symbols : Array Nat} {counts : List Nat} {value first index s : Nat}
    {bits rest : Bits} (h : readFrom symbols counts value first index bits = .symbol s rest)
    (more : Bits) :
    readFrom symbols counts value first index (bits ++ more) = .symbol s (rest ++ more) := by
  fun_induction readFrom symbols counts value first index bits with
  | case1 => cases h
  | case2 => cases h
  | case3 count counts value first index bit bits value' first' hlt =>
      cases h
      rw [List.cons_append, readFrom, if_pos hlt]
  | case4 count counts value first index bit bits value' first' hlt ih =>
      rw [List.cons_append, readFrom, if_neg hlt]
      exact ih h

section Strings

variable {symbols : Array Nat} {count : Nat} {counts : List Nat} {value first index : Nat} {bit : Bool}

/-- A string behind those of the present length is a longer one. -/
theorem readFrom_longer (h : 2 * first + count ≤ 2 * value + bit.toNat) (bits : Bits) :
    readFrom symbols (count :: counts) value first index (bit :: bits)
      = readFrom symbols counts (2 * value + bit.toNat) (2 * first + count) (index + count) bits := by
  rw [readFrom, if_neg (Nat.not_lt.mpr h)]

/-- A string of the present length is a symbol. -/
theorem readFrom_symbol (h : 2 * value + bit.toNat < 2 * first + count) (bits : Bits) :
    readFrom symbols (count :: counts) value first index (bit :: bits)
      = .symbol (symbols.getD (index + (2 * value + bit.toNat - 2 * first)) 0) bits := by
  rw [readFrom, if_pos h]

/-- Lengths that no symbol has are passed over. -/
theorem readFrom_zeros (more n zeros : Nat) :
    readFrom symbols (List.replicate zeros 0 ++ counts) value 0 0 (Bits.ofNatReversed (zeros + more) n)
      = readFrom symbols counts (value * 2 ^ zeros + n / 2 ^ more % 2 ^ zeros) 0 0
        (Bits.ofNatReversed more n) := by
  -- the bits read so far are the upper bits of the string's number
  induction zeros generalizing value with
  | zero => simp [Nat.mod_one]
  | succ zeros ih =>
      have hvalue : (2 * value + n / 2 ^ (zeros + more) % 2) * 2 ^ zeros + n / 2 ^ more % 2 ^ zeros
          = value * 2 ^ (zeros + 1) + n / 2 ^ more % 2 ^ (zeros + 1) := by
        rw [Nat.mod_pow_succ, Nat.div_div_eq_div_mul, ← Nat.pow_add, Nat.add_comm more zeros]
        grind
      rw [List.replicate_succ, List.cons_append, Nat.add_right_comm, Bits.ofNatReversed_succ,
        readFrom_longer (Nat.zero_le _), Bits.toNat_testBit, ih, hvalue]

end Strings

end HuffmanCode

namespace Inflate

open HuffmanCode

/-- The symbols of the fixed code for bytes and lengths in the order of their strings. -/
def fixedSymbol (i : Nat) : Nat :=
  if i < 24 then i + 256 else if i < 168 then i - 24 else if i < 176 then i + 112 else i - 32

/-- The fixed code for bytes and lengths has strings of seven, eight and nine bits. -/
theorem fixedCodes_literal : fixedCodes.literal
    = ⟨List.replicate 6 0 ++ [24, 152, 112], ((List.range 288).map fixedSymbol).toArray⟩ := by
  have hcounts : fixedCodes.literal.counts = List.replicate 6 0 ++ [24, 152, 112] := by
    decide +kernel
  have hsymbols : fixedCodes.literal.symbols.toList = (List.range 288).map fixedSymbol := by
    decide +kernel
  rw [← hcounts, ← hsymbols]

theorem getD_fixedSymbol {i : Nat} (h : i < 288) :
    ((List.range 288).map fixedSymbol).toArray.getD i 0 = fixedSymbol i := by
  rw [Array.getD_eq_getD_getElem?, List.getElem?_toArray, List.getElem?_map, List.getElem?_range h]
  rfl

/-- The codes of seven bits, for the end of a block and the shorter lengths. -/
theorem read_sevenBits {n : Nat} (h : n < 24) :
    fixedCodes.literal.read (Bits.ofNatReversed 7 n) = .symbol (fixedSymbol n) [] := by
  have hseven : 2 * (0 * 2 ^ 6 + n / 2 ^ 1 % 2 ^ 6) + n / 2 ^ 0 % 2 = n := by omega
  rw [fixedCodes_literal, HuffmanCode.read, readFrom_zeros 1 n 6, Bits.ofNatReversed_succ,
    readFrom_symbol (by rw [Bits.toNat_testBit]; omega), Bits.toNat_testBit, hseven, Nat.zero_add,
    getD_fixedSymbol (by omega)]
  rfl

/-- The codes of eight bits, for most literals and the longer lengths. -/
theorem read_eightBits {n : Nat} (h : 48 ≤ n) (h' : n < 200) :
    fixedCodes.literal.read (Bits.ofNatReversed 8 n) = .symbol (fixedSymbol (24 + (n - 48))) [] := by
  have hseven : 2 * (0 * 2 ^ 6 + n / 2 ^ 2 % 2 ^ 6) + n / 2 ^ 1 % 2 = n / 2 := by omega
  have height : 2 * (n / 2) + n / 2 ^ 0 % 2 = n := by omega
  rw [fixedCodes_literal, HuffmanCode.read, readFrom_zeros 2 n 6, Bits.ofNatReversed_succ,
    readFrom_longer (by rw [Bits.toNat_testBit]; omega), Bits.toNat_testBit, hseven,
    Bits.ofNatReversed_succ, readFrom_symbol (by rw [Bits.toNat_testBit]; omega),
    Bits.toNat_testBit, height, getD_fixedSymbol (by omega)]
  rfl

/-- The codes of nine bits, for the other literals. -/
theorem read_nineBits {n : Nat} (h : 400 ≤ n) (h' : n < 512) :
    fixedCodes.literal.read (Bits.ofNatReversed 9 n) = .symbol (fixedSymbol (176 + (n - 400))) [] := by
  have hseven : 2 * (0 * 2 ^ 6 + n / 2 ^ 3 % 2 ^ 6) + n / 2 ^ 2 % 2 = n / 4 := by omega
  have height : 2 * (n / 4) + n / 2 ^ 1 % 2 = n / 2 := by omega
  have hnine : 2 * (n / 2) + n / 2 ^ 0 % 2 = n := by omega
  rw [fixedCodes_literal, HuffmanCode.read, readFrom_zeros 3 n 6, Bits.ofNatReversed_succ,
    readFrom_longer (by rw [Bits.toNat_testBit]; omega), Bits.toNat_testBit, hseven,
    Bits.ofNatReversed_succ, readFrom_longer (by rw [Bits.toNat_testBit]; omega),
    Bits.toNat_testBit, height, Bits.ofNatReversed_succ,
    readFrom_symbol (by rw [Bits.toNat_testBit]; omega), Bits.toNat_testBit, hnine,
    getD_fixedSymbol (by omega)]
  rfl

/-- Every symbol of the fixed code for bytes and lengths is read from its string. -/
theorem read_literalBits {s : Nat} (h : s < 288) :
    fixedCodes.literal.read (Deflate.literalBits s) = .symbol s [] := by
  unfold Deflate.literalBits
  by_cases h1 : s < 144
  · have hs : fixedSymbol (24 + (0x30 + s - 48)) = s := by grind [fixedSymbol]
    rw [if_pos h1, read_eightBits (by omega) (by omega), hs]
  rw [if_neg h1]
  by_cases h2 : s < 256
  · have hs : fixedSymbol (176 + (0x190 + (s - 144) - 400)) = s := by grind [fixedSymbol]
    rw [if_pos h2, read_nineBits (by omega) (by omega), hs]
  rw [if_neg h2]
  by_cases h3 : s < 280
  · have hs : fixedSymbol (s - 256) = s := by grind [fixedSymbol]
    rw [if_pos h3, read_sevenBits (by omega), hs]
  · have hs : fixedSymbol (24 + (0xC0 + (s - 280) - 48)) = s := by grind [fixedSymbol]
    rw [if_neg h3, read_eightBits (by omega) (by omega), hs]

/-- A code that reads a symbol from its own bits reads it in front of any others. -/
theorem symbol_of_read {code : HuffmanCode} {bits : Bits} {s : Nat}
    (h : code.read bits = .symbol s []) (fault : InflateFault) (rest : Bits) :
    symbol code fault (bits ++ rest) = .ok (s, rest) := by
  have hread : code.read (bits ++ rest) = .symbol s ([] ++ rest) := readFrom_append h rest
  rw [symbol, hread]
  rfl

/-- A symbol for a byte or a length is read back. -/
theorem symbol_literalBits {s : Nat} (h : s < 288) (fault : InflateFault) (rest : Bits) :
    symbol fixedCodes.literal fault (Deflate.literalBits s ++ rest) = .ok (s, rest) :=
  symbol_of_read (read_literalBits h) fault rest

deriving instance DecidableEq for SymbolRead

/-- A symbol for a distance is read back. -/
theorem symbol_distanceBits {s : Nat} (h : s < 32) (fault : InflateFault) (rest : Bits) :
    symbol fixedCodes.distance fault (Bits.ofNatReversed 5 s ++ rest) = .ok (s, rest) := by
  have hread : ∀ s < 32, fixedCodes.distance.read (Bits.ofNatReversed 5 s) = .symbol s [] := by
    decide +kernel
  exact symbol_of_read (hread s h) fault rest

/-! ## Table entries -/

/-- The entries of a table, each a least value and a number of extra bits, leave no gaps up to a
limit. -/
def Gapless (limit : Nat) : List (Nat × Nat) → Prop
  | [] => True
  | [e] => limit < e.1 + 2 ^ e.2
  | e :: e' :: rest => e'.1 ≤ e.1 + 2 ^ e.2 ∧ Gapless limit (e' :: rest)

instance decidableGapless (limit : Nat) : (entries : List (Nat × Nat)) → Decidable (Gapless limit entries)
  | [] => .isTrue trivial
  | [e] => inferInstanceAs (Decidable (limit < e.1 + 2 ^ e.2))
  | e :: e' :: rest =>
    have := decidableGapless limit (e' :: rest)
    inferInstanceAs (Decidable (e'.1 ≤ e.1 + 2 ^ e.2 ∧ Gapless limit (e' :: rest)))

/-- The last entry up to a value is one whose extra bits reach the value. -/
theorem Gapless.entry {limit n : Nat} {e : Nat × Nat} {entries : List (Nat × Nat)}
    (h : Gapless limit (e :: entries)) (hlow : e.1 ≤ n) (hhigh : n ≤ limit) :
    ∃ base extra, (e :: entries)[((e :: entries).takeWhile (fun e => e.1 ≤ n)).length - 1]?
      = some (base, extra) ∧ base ≤ n ∧ n < base + 2 ^ extra := by
  induction entries generalizing e with
  | nil =>
      have hlimit : limit < e.1 + 2 ^ e.2 := h
      rw [List.takeWhile_cons_of_pos (by simpa using hlow)]
      exact ⟨e.1, e.2, rfl, hlow, by omega⟩
  | cons e' rest ih =>
      -- the value belongs to the first entry or lies behind the start of the second
      obtain ⟨hnext, hrest⟩ := h
      rw [List.takeWhile_cons_of_pos (by simpa using hlow)]
      by_cases hn : e'.1 ≤ n
      · obtain ⟨base, extra, hentry, hvalue⟩ := ih hrest hn
        rw [List.takeWhile_cons_of_pos (by simpa using hn)] at hentry ⊢
        exact ⟨base, extra, hentry, hvalue⟩
      · rw [List.takeWhile_cons_of_neg (by simpa using hn)]
        exact ⟨e.1, e.2, rfl, hlow, by omega⟩

/-- A value is read back through a table, and its symbol is one of the table's. -/
theorem extended_entryOf {table : Array (Nat × Nat)} {e : Nat × Nat} {entries : List (Nat × Nat)}
    {limit n : Nat} (htable : table.toList = e :: entries) (h : Gapless limit (e :: entries))
    (hlow : e.1 ≤ n) (hhigh : n ≤ limit) :
    ∃ index excess extra, Deflate.entryOf table n = (index, excess, extra) ∧ index < table.size
      ∧ ∀ fault rest, extended table fault index (Bits.ofNat extra excess ++ rest) = .ok (n, rest) := by
  obtain ⟨base, extra, hentry, hbase, hextra⟩ := h.entry hlow hhigh
  rw [← htable, Array.getElem?_toList] at hentry
  refine ⟨_, n - base, extra, ?_, (Array.getElem?_eq_some_iff.mp hentry).1, ?_⟩
  · rw [Deflate.entryOf, Array.getD_eq_getD_getElem?, hentry]
    rfl
  · intro fault rest
    rw [extended, hentry]
    dsimp only
    rw [number, Bits.take?_ofNat (by omega)]
    show Except.ok (base + (n - base), rest) = _
    rw [Nat.add_sub_cancel' hbase]

end Inflate

end Formulary
