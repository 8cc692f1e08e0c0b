import Formulary.Proofs.Compression.Codes

/-!
# Repetitions and their expansion

A deflated stream lists bytes and repetitions of bytes that have stood before. The writer finds
repetitions by a table of the places seen so far, which all lie before the present one, and compares
the bytes; so what the reader copies is what the writer read.

- `Deflate.Expands` is the output that a list of items makes behind some output.
- `Deflate.expands_items` says that the items of some bytes make these bytes.
- `Inflate.symbols_items` says that the reader makes of the bits of a list of items what the list makes.
- `inflate_deflate` is the round trip.
-/

namespace Formulary

namespace Deflate

open Inflate

/-- Items behind an output make another one. A repetition reaches back into the output, and no
further than the format has room for. -/
inductive Expands : Array UInt8 → List Item → Array UInt8 → Prop where
  | nil (output : Array UInt8) : Expands output [] output
  | byte {output result : Array UInt8} {rest : List Item} (value : UInt8)
    (h : Expands (output.push value) rest result) : Expands output (.byte value :: rest) result
  | repeated {output result : Array UInt8} {rest : List Item} {length distance : Nat}
    (hlength : 3 ≤ length ∧ length ≤ 258) (hdistance : 1 ≤ distance ∧ distance ≤ 32768)
    (hback : distance ≤ output.size)
    (h : Expands (copyBack distance length output) rest result) :
    Expands output (.repeated length distance :: rest) result

/-! ## Finding repetitions -/

section Finding

variable {bytes : Array UInt8}

theorem agreement_le (i j limit : Nat) : agreement bytes i j limit ≤ limit := by
  induction limit generalizing i j with
  | zero => exact Nat.le_refl 0
  | succ limit ih =>
      rw [agreement]
      split
      · exact Nat.succ_le_succ (ih _ _)
      · exact Nat.zero_le _

/-- The first bytes and one more. -/
theorem push_extract {i : Nat} (h : i < bytes.size) :
    (bytes.extract 0 i).push (bytes.getD i 0) = bytes.extract 0 (i + 1) := by
  rw [Array.getD_eq_getD_getElem?, Array.getElem?_eq_getElem h]
  simp [Array.push_extract_getElem]

theorem getD_extract {i j : Nat} (hj : j < i) (hi : i ≤ bytes.size) :
    (bytes.extract 0 i).getD j 0 = bytes.getD j 0 := by
  rw [Array.getD_eq_getD_getElem?, Array.getD_eq_getD_getElem?, Array.getElem?_extract,
    if_pos (by omega), Nat.zero_add]

/-- Copying what agrees with the bytes to come makes these bytes. -/
theorem copyBack_agreement {i j limit length : Nat} (hj : j < i)
    (h : length ≤ agreement bytes i j limit) (hi : i ≤ bytes.size) :
    i + length ≤ bytes.size
      ∧ copyBack (i - j) length (bytes.extract 0 i) = bytes.extract 0 (i + length) := by
  induction length generalizing i j limit with
  | zero => exact ⟨hi, rfl⟩
  | succ length ih =>
      cases limit with
      | zero => exact absurd h (Nat.not_succ_le_zero _)
      | succ limit =>
          rw [agreement] at h
          split at h
          · rename_i hagree
            simp only [Bool.and_eq_true, decide_eq_true_eq, beq_iff_eq] at hagree
            obtain ⟨hlt, heq⟩ := hagree
            obtain ⟨hend, hcopy⟩ := ih (Nat.succ_lt_succ hj) (Nat.le_of_succ_le_succ h) hlt
            have hsize : (bytes.extract 0 i).size = i := by
              rw [Array.size_extract]
              omega
            have hsource : (bytes.extract 0 i).getD (i - (i - j)) 0 = bytes.getD i 0 := by
              have hindex : i - (i - j) = j := by omega
              rw [hindex, heq, getD_extract hj hi]
            refine ⟨by omega, ?_⟩
            rw [copyBack, hsize, hsource, push_extract hlt]
            -- both places move on together, and their distance stays
            have hdistance : i - j = i + 1 - (j + 1) := by omega
            rw [hdistance, hcopy]
            congr 1
            omega
          · exact absurd h (Nat.not_succ_le_zero _)

/-- Every place in the table lies before the present one. -/
def Before (seen : Std.HashMap Nat Nat) (i : Nat) : Prop := ∀ k j : Nat, seen[k]? = some j → j < i

theorem before_empty (i : Nat) : Before ∅ i := by
  intro k j h
  rw [Std.HashMap.getElem?_empty] at h
  cases h

theorem Before.insert {seen : Std.HashMap Nat Nat} {i i' : Nat} (h : Before seen i) (hi : i < i')
    (key : Nat) : Before (seen.insert key i) i' := by
  intro k j hj
  rw [Std.HashMap.getElem?_insert] at hj
  split at hj
  · cases hj
    exact hi
  · exact Nat.lt_trans (h k j hj) hi

/-- A repetition that is found is one of the format, and is made of bytes that have stood before. -/
theorem repetition?_eq_some {seen : Std.HashMap Nat Nat} {i length distance : Nat}
    (hseen : Before seen i) (hi : i ≤ bytes.size)
    (h : repetition? bytes seen i = some (length, distance)) :
    (3 ≤ length ∧ length ≤ 258) ∧ (1 ≤ distance ∧ distance ≤ 32768) ∧ distance ≤ i
      ∧ i + length ≤ bytes.size
      ∧ copyBack distance length (bytes.extract 0 i) = bytes.extract 0 (i + length) := by
  rw [repetition?] at h
  split at h
  · cases h
  · rename_i j hj
    have hbefore : j < i := hseen _ j hj
    dsimp only at h
    split at h
    · rename_i hfits
      simp only [Bool.and_eq_true, decide_eq_true_eq] at hfits
      cases h
      have hcopy := copyBack_agreement hbefore (Nat.le_refl (agreement bytes i j 258)) hi
      exact ⟨⟨hfits.1, agreement_le i j 258⟩, ⟨by omega, hfits.2⟩, Nat.sub_le i j, hcopy⟩
    · cases h

/-- The items from a place on make the bytes from there on. -/
theorem expands_itemsFrom (bytes : Array UInt8) (fuel : Nat) {i : Nat}
    {seen : Std.HashMap Nat Nat} (hseen : Before seen i) (hi : i ≤ bytes.size)
    (hfuel : bytes.size ≤ i + fuel) :
    Expands (bytes.extract 0 i) (itemsFrom bytes fuel i seen) bytes := by
  have hall : bytes.extract 0 bytes.size = bytes := Array.extract_size
  -- every item takes at least one byte, so that the fuel lasts to the end
  induction fuel generalizing i seen with
  | zero =>
      have hend : i = bytes.size := by omega
      rw [itemsFrom, hend, hall]
      exact .nil bytes
  | succ fuel ih =>
      rw [itemsFrom]
      by_cases hlt : i < bytes.size
      · rw [if_pos hlt]
        cases hrepetition : repetition? bytes seen i with
        | none =>
            refine .byte _ ?_
            rw [push_extract hlt]
            exact ih (hseen.insert (Nat.lt_succ_self i) _) hlt (by omega)
        | some found =>
            obtain ⟨length, distance⟩ := found
            obtain ⟨hlength, hdistance, hback, hend, hcopy⟩ :=
              repetition?_eq_some hseen hi hrepetition
            refine .repeated hlength hdistance ?_ ?_
            · rw [Array.size_extract]
              omega
            · rw [hcopy]
              exact ih (hseen.insert (by omega) _) hend (by omega)
      · have hend : i = bytes.size := by omega
        rw [if_neg hlt, hend, hall]
        exact .nil bytes

end Finding

/-- The items of some bytes make these bytes. -/
theorem expands_items (bytes : List UInt8) : Expands #[] (items bytes) bytes.toArray := by
  have h := expands_itemsFrom bytes.toArray bytes.length (before_empty 0) (Nat.zero_le _) (by simp)
  rwa [Array.extract_zero] at h

/-! ## Bits of items -/

theorem length_literalBits_pos (s : Nat) : 0 < (literalBits s).length := by
  rw [literalBits]
  split
  · simp [Bits.ofNatReversed]
  split
  · simp [Bits.ofNatReversed]
  split <;> simp [Bits.ofNatReversed]

/-- Each item takes a bit at least. -/
theorem length_le_length_flatMap (items : List Item) :
    items.length ≤ (items.flatMap itemBits).length := by
  induction items with
  | nil => exact Nat.le_refl 0
  | cons item items ih =>
      have hitem : 0 < (itemBits item).length := by
        cases item with
        | byte value => exact length_literalBits_pos _
        | repeated length distance =>
            rw [itemBits]
            simp only [List.length_append]
            have hpos := length_literalBits_pos (257 + (entryOf lengthTable length).1)
            omega
      rw [List.flatMap_cons, List.length_append, List.length_cons]
      omega

end Deflate

namespace Inflate

open Deflate

/-- A length of a repetition is read back. -/
theorem extended_length {n : Nat} (hlow : 3 ≤ n) (hhigh : n ≤ 258) :
    ∃ index excess extra, entryOf lengthTable n = (index, excess, extra)
      ∧ index < lengthTable.size ∧ ∀ fault rest,
        extended lengthTable fault index (Bits.ofNat extra excess ++ rest) = .ok (n, rest) :=
  extended_entryOf rfl (by decide) hlow hhigh

/-- A distance of a repetition is read back. -/
theorem extended_distance {n : Nat} (hlow : 1 ≤ n) (hhigh : n ≤ 32768) :
    ∃ index excess extra, entryOf distanceTable n = (index, excess, extra)
      ∧ index < distanceTable.size ∧ ∀ fault rest,
        extended distanceTable fault index (Bits.ofNat extra excess ++ rest) = .ok (n, rest) :=
  extended_entryOf rfl (by decide) hlow hhigh

/-- The reader makes of the bits of some items what the items make. -/
theorem symbols_items {output result : Array UInt8} {items : List Item}
    (h : Expands output items result) (rest : Bits) :
    ∀ fuel, items.length < fuel →
      symbols fixedCodes 32768 fuel output (items.flatMap itemBits ++ (literalBits 256 ++ rest))
        = .ok (result, rest) := by
  induction h with
  | nil output =>
      intro fuel hfuel
      obtain ⟨fuel, rfl⟩ : ∃ k, fuel = k + 1 := ⟨fuel - 1, by omega⟩
      rw [List.flatMap_nil, List.nil_append, symbols, symbol_literalBits (by decide)]
      rfl
  | byte value _ ih =>
      intro fuel hfuel
      have hvalue := value.toNat_lt
      obtain ⟨fuel, rfl⟩ : ∃ k, fuel = k + 1 := ⟨fuel - 1, by omega⟩
      rw [List.flatMap_cons, itemBits, List.append_assoc, symbols, symbol_literalBits (by omega)]
      dsimp only [bind, Except.bind]
      rw [if_pos hvalue, UInt8.ofNat_toNat]
      exact ih fuel (Nat.lt_of_succ_lt_succ hfuel)
  | @repeated output result items length distance hlength hdistance hback _ ih =>
      intro fuel hfuel
      obtain ⟨fuel, rfl⟩ : ∃ k, fuel = k + 1 := ⟨fuel - 1, by omega⟩
      obtain ⟨l, lExcess, lExtra, hl, hlsize, hlread⟩ := extended_length hlength.1 hlength.2
      obtain ⟨d, dExcess, dExtra, hd, hdsize, hdread⟩ := extended_distance hdistance.1 hdistance.2
      have hlsize : l < 29 := hlsize
      have hdsize : d < 30 := hdsize
      rw [List.flatMap_cons, itemBits, hl, hd]
      dsimp only
      -- the symbol and the extra bits of the length, then those of the distance
      rw [List.append_assoc, List.append_assoc, List.append_assoc, List.append_assoc, symbols,
        symbol_literalBits (by omega)]
      dsimp only [bind, Except.bind]
      rw [if_neg (by omega), if_neg (by omega), Nat.add_sub_cancel_left, hlread]
      dsimp only
      rw [symbol_distanceBits (by omega)]
      dsimp only
      rw [hdread]
      dsimp only
      rw [if_neg (by simp; omega)]
      exact ih fuel (Nat.lt_of_succ_lt_succ hfuel)

end Inflate

/-- Deflated bytes are inflated again, and the bits behind them are left. -/
theorem inflate_deflate (bytes : List UInt8) (rest : Bits) :
    inflate 32768 (deflate bytes ++ rest) = .ok (bytes.toArray, rest) := by
  have hheader : ∀ more : Bits, Inflate.number 3 (Bits.ofNat 1 1 ++ (Bits.ofNat 2 1 ++ more))
      = .ok (3, more) := fun _ => rfl
  have hlength := Deflate.length_le_length_flatMap (Deflate.items bytes)
  rw [inflate, deflate, List.append_assoc, List.append_assoc, List.append_assoc, Inflate.blocks,
    hheader]
  dsimp only [bind, Except.bind]
  rw [Inflate.block, Inflate.symbols_items (Deflate.expands_items bytes)]
  · dsimp only
    rw [if_pos rfl]
    rfl
  · simp only [List.length_append]
    omega

end Formulary
