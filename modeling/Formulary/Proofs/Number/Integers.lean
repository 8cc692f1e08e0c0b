import Formulary.Number.Dyadic
import Mathlib

/-!
# Integers among the doubles

Every integer of magnitude below 2^53 is a double. It is shifted until its significand has 53 bits, and
neither rounding nor packing loses anything of such a significand, nor does a division by one.

- `Number.Normal` holds of a significand of 53 bits and its exponent, and `Number.double` is the double
  of the two.
- `Number.Normal.roundWithAccuracy_eq`, `Number.Normal.unpack_double` and
  `Number.Normal.ofFloat?_double` say that it is rounded to itself, unpacked as it was packed, and
  taken apart into the same parts.
- `Number.toSafeInteger?_ofInt` says that the double of an integer is taken for that integer.
-/

namespace Formulary

/-- A significand that is shifted up and down by the same number of bits is whole again. -/
theorem Dyadic.scaled_whole (negative : Bool) (n k : Nat) :
    (⟨negative, n * 2 ^ k, -(k : Int)⟩ : Dyadic).isWhole = true
      ∧ (⟨negative, n * 2 ^ k, -(k : Int)⟩ : Dyadic).wholeMagnitude = n := by
  cases k with
  | zero => exact ⟨rfl, Nat.mul_one n⟩
  | succ k =>
      constructor
      · show (n * 2 ^ (k + 1) % 2 ^ (k + 1) == 0) = true
        rw [Nat.mul_mod_left]
        rfl
      · show (n * 2 ^ (k + 1)) >>> (k + 1) = n
        rw [Nat.shiftRight_eq_div_pow, Nat.mul_div_cancel n (Nat.two_pow_pos _)]

namespace Number

open Float.Model Float.Model.UnpackedFloat

/-! ## Significands of 53 bits -/

/-- The significand, of exactly 53 bits, and the exponent of a value from one up to 2^53. -/
structure Normal (m : Nat) (e : Int) : Prop where
  lower : 2 ^ 52 ≤ m
  upper : m < 2 ^ 53
  least : -52 ≤ e
  greatest : e ≤ 0

namespace Normal

variable {m : Nat} {e : Int}

/-- A normal significand is not zero. -/
theorem pos (h : Normal m e) : 0 < m := by
  have := h.lower
  omega

/-- A normal significand has 53 bits, and as many more as it is shifted by. -/
theorem log2_mul (h : Normal m e) (j : Nat) : (m * 2 ^ j).log2 = 52 + j := by
  have hne : m * 2 ^ j ≠ 0 := Nat.ne_of_gt (Nat.mul_pos h.pos (Nat.two_pow_pos j))
  refine (Nat.log2_eq_iff hne).mpr ⟨?_, ?_⟩
  · rw [Nat.pow_add]
    exact Nat.mul_le_mul_right _ h.lower
  · rw [Nat.add_right_comm, Nat.pow_add]
    exact Nat.mul_lt_mul_of_pos_right h.upper (Nat.two_pow_pos j)

theorem log2_eq (h : Normal m e) : m.log2 = 52 := by
  have hlog := h.log2_mul 0
  rwa [Nat.pow_zero, Nat.mul_one] at hlog

/-- A significand with more bits is shifted to 53 bits. -/
theorem targetExponent_eq (h : Normal m e) (j : Nat) :
    Format.binary64.targetExponent (totalExponent (m * 2 ^ j) (e - j)) = e := by
  have hleast := h.least
  rw [totalExponent, h.log2_mul]
  show max (((52 + j : Nat) : Int) + 1 + (e - j) - 53) (-1074) = e
  omega

end Normal

/-- Zeros are shifted out without a trace. -/
theorem shiftRight_mul (m j : Nat) :
    (⟨m * 2 ^ j, false, false⟩ : ExtendedMantissa) >>> j = ⟨m, false, false⟩ := by
  induction j generalizing m with
  | zero =>
      show (⟨m * 1, false, false⟩ : ExtendedMantissa) = _
      rw [Nat.mul_one]
  | succ j ih =>
      show ((⟨m * 2 ^ (j + 1), false, false⟩ : ExtendedMantissa) >>> j).shiftRightOne = _
      rw [Nat.pow_succ', ← Nat.mul_assoc, ih]
      show (⟨m * 2 / 2, m * 2 % 2 != 0, false⟩ : ExtendedMantissa) = _
      rw [Nat.mul_div_cancel m (by decide), Nat.mul_mod_left]
      rfl

namespace Normal

variable {m : Nat} {e : Int}

/-- What is shifted up comes back exactly. -/
theorem shiftToTargetExponent_eq (h : Normal m e) (j : Nat) :
    shiftToTargetExponent Format.binary64 (m * 2 ^ j) (e - j) .exact = (⟨m, false, false⟩, e) := by
  have hshift : (e - (e - j)).toNat = j := by omega
  rw [shiftToTargetExponent, h.targetExponent_eq, shiftToExponent, hshift]
  show ((⟨m * 2 ^ j, false, false⟩ : ExtendedMantissa) >>> j, e - j + j) = _
  rw [shiftRight_mul, Int.sub_add_cancel]

/-- Rounding leaves a significand of 53 bits alone, however it is written. -/
theorem roundWithAccuracy_eq (h : Normal m e) (s : Sign) (j : Nat) :
    roundWithAccuracy Format.binary64 s (m * 2 ^ j) (e - j) .exact = .finite s m e h.pos := by
  -- the second shift is for a significand that rounding has carried over to 54 bits
  have hagain : shiftToTargetExponent Format.binary64 m e .exact = (⟨m, false, false⟩, e) := by
    have hzero := h.shiftToTargetExponent_eq 0
    rwa [Nat.pow_zero, Nat.mul_one, Int.natCast_zero, Int.sub_zero] at hzero
  rw [roundWithAccuracy, h.shiftToTargetExponent_eq]
  have hrounded : (⟨m, false, false⟩ : ExtendedMantissa).roundedMantissa = m := rfl
  simp only [hrounded, hagain]
  exact dif_neg (Nat.ne_of_gt h.pos)

/-! ## Packing -/

/-- The exponent fits into eleven bits. -/
theorem toNat_exponent (h : Normal m e) :
    (BitVec.ofNat 11 (e + 1075).toNat).toNat = (e + 1075).toNat := by
  have hgreatest := h.greatest
  exact Nat.mod_eq_of_lt (by omega)

/-- The first of the 53 bits is not packed. -/
theorem pack_eq (h : Normal m e) (s : Sign) :
    UnpackedFloat.pack Format.binary64 (.finite s m e h.pos)
      = packComponents Format.binary64 s (BitVec.ofNat 11 (e + 1075).toNat) (BitVec.ofNat 52 m) := by
  have hgreatest := h.greatest
  have hbiased : (e + Format.binary64.exponentBias
      + Format.binary64.mantissaBitsWithoutImplicit).toNat = (e + 1075).toNat := by
    show (e + 1023 + 52).toNat = _
    rw [Int.add_assoc]
    rfl
  have hfits : ¬ 2 ^ Format.binary64.exponentBits ≤ (e + 1075).toNat + 1 := by
    show ¬ 2048 ≤ (e + 1075).toNat + 1
    omega
  have hbits : 52 + 1 = Format.binary64.mantissaBits := rfl
  rw [UnpackedFloat.pack, hbiased, h.log2_eq, if_neg hfits, if_pos hbits]

end Normal

/-- The bits of two words, one behind the other. -/
theorem toNat_append_eq {n k : Nat} (x : BitVec n) (y : BitVec k) :
    (x ++ y).toNat = x.toNat * 2 ^ k + y.toNat := by
  rw [BitVec.toNat_append, ← Nat.shiftLeft_add_eq_or_of_lt y.isLt, Nat.shiftLeft_eq]

/-- The double with a sign, a significand of 53 bits and an exponent. -/
def double (s : Sign) {m : Nat} {e : Int} (h : Normal m e) : Number :=
  Float.ofModel (Float.Model.pack (.finite s m e h.pos))

namespace Normal

variable {m : Nat} {e : Int}

/-- The fields of a double: its sign, its exponent and its significand without the leading bit. -/
theorem toNat_toBits (h : Normal m e) (s : Sign) :
    (double s h).toBits.toNat
      = s.toBitVec.toNat * 2 ^ 63 + (e + 1075).toNat * 2 ^ 52 + (m - 2 ^ 52) := by
  have hlower := h.lower
  have hupper := h.upper
  have hfraction : (BitVec.ofNat 52 m).toNat = m - 2 ^ 52 := by
    rw [BitVec.toNat_ofNat]
    omega
  show (UnpackedFloat.pack Format.binary64 (.finite s m e h.pos)).toNat = _
  rw [h.pack_eq]
  show (s.toBitVec ++ BitVec.ofNat 11 (e + 1075).toNat ++ BitVec.ofNat 52 m).toNat = _
  rw [toNat_append_eq, toNat_append_eq, h.toNat_exponent, hfraction]
  omega

/-- A double is taken apart into what it was put together from. -/
theorem ofFloat?_double (h : Normal m e) (s : Sign) :
    Dyadic.ofFloat? (double s h) = some ⟨s == .negative, m, e⟩ := by
  have hlower := h.lower
  have hupper := h.upper
  have hleast := h.least
  have hgreatest := h.greatest
  have hbits := h.toNat_toBits s
  rw [Dyadic.ofFloat?]
  generalize (double s h).toBits.toNat = bits at hbits
  have hbiased : bits / Nat.pow 2 52 % Nat.pow 2 11 = (e + 1075).toNat := by
    show bits / 2 ^ 52 % 2 ^ 11 = _
    omega
  have hfraction : bits % Nat.pow 2 52 = m - 2 ^ 52 := by
    show bits % 2 ^ 52 = _
    omega
  have hnegative : decide (Nat.pow 2 63 ≤ bits) = (s == .negative) := by
    cases s with
    | negative =>
        have hsign : Sign.negative.toBitVec.toNat = 1 := rfl
        refine decide_eq_true (show 2 ^ 63 ≤ bits from ?_)
        omega
    | positive =>
        have hsign : Sign.positive.toBitVec.toNat = 0 := rfl
        refine decide_eq_false (show ¬ 2 ^ 63 ≤ bits from ?_)
        omega
  have hfinite : (e + 1075).toNat ≠ Nat.pow 2 11 - 1 := by
    show (e + 1075).toNat ≠ 2047
    omega
  have hnormal : (e + 1075).toNat ≠ 0 := by omega
  have hsignificand : Nat.pow 2 52 + (m - 2 ^ 52) = m := by
    have hpow : Nat.pow 2 52 = 2 ^ 52 := rfl
    omega
  have hexponent : ((e + 1075).toNat : Int) - 1075 = e := by omega
  rw [hbiased, hfraction, hnegative, if_neg hfinite, if_neg hnormal, hsignificand, hexponent]

/-- A double is unpacked to what it was packed from. -/
theorem unpack_double (h : Normal m e) (s : Sign) :
    (double s h).toModel.unpack = .finite s m e h.pos := by
  have hlower := h.lower
  have hupper := h.upper
  have hleast := h.least
  have hgreatest := h.greatest
  have hfinite : BitVec.ofNat 11 (e + 1075).toNat ≠ -1#11 := by
    intro heq
    have : (e + 1075).toNat = 2047 := h.toNat_exponent.symm.trans (congrArg BitVec.toNat heq)
    omega
  have hnormal : BitVec.ofNat 11 (e + 1075).toNat ≠ 0#11 := by
    intro heq
    have : (e + 1075).toNat = 0 := h.toNat_exponent.symm.trans (congrArg BitVec.toNat heq)
    omega
  have hsignificand : (1#1 ++ BitVec.ofNat 52 m).toNat = m := by
    rw [toNat_append_eq, BitVec.toNat_ofNat]
    show 1 * 2 ^ 52 + m % 2 ^ 52 = m
    omega
  have hvalue : ((e + 1075).toNat : Int) - (Format.binary64.exponentBias + (52 : Nat)) = e := by
    show ((e + 1075).toNat : Int) - 1075 = e
    omega
  show UnpackedFloat.unpack Format.binary64
    (UnpackedFloat.pack Format.binary64 (.finite s m e h.pos)) = _
  rw [h.pack_eq, UnpackedFloat.unpack]
  simp only [unpackMantissa_packComponents, unpackExponent_packComponents, unpackSign_packComponents,
    Sign.ofBitVec_toBitVec, if_neg hfinite, if_neg hnormal, hsignificand, h.toNat_exponent, hvalue]

/-! ## Arithmetic with one -/

/-- One is a normal significand. -/
theorem one : Normal (2 ^ 52) (-52) := ⟨by omega, by omega, by omega, by omega⟩

theorem double_neg (h : Normal m e) (s : Sign) : (double s h).neg = double (-s) h := by
  show Float.ofModel (Float.Model.pack (double s h).toModel.unpack.neg) = _
  rw [h.unpack_double]
  rfl

/-- A product with one is exact. -/
theorem double_mul_one (h : Normal m e) (s : Sign) :
    double s h * double .positive one = double s h := by
  have hsign : s * .positive = s := by cases s <;> rfl
  show Float.ofModel (Float.Model.pack (UnpackedFloat.mul Format.binary64
    (double s h).toModel.unpack (double .positive one).toModel.unpack)) = _
  rw [h.unpack_double, one.unpack_double, UnpackedFloat.mul, hsign]
  exact congrArg (fun u => Float.ofModel (Float.Model.pack u)) (h.roundWithAccuracy_eq s 52)

/-- The quotient is computed with one bit more than it needs. -/
theorem divCore_one (h : Normal m e) :
    divCore Format.binary64 m e (2 ^ 52) (-52) = (m * 2 ^ 1, e - (1 : Nat), .exact) := by
  have hleast := h.least
  have htarget : min (e - -52) (Format.binary64.targetExponent
      (totalExponent m e - totalExponent (2 ^ 52) (-52))) = e - 1 := by
    rw [totalExponent, totalExponent, h.log2_eq, Nat.log2_two_pow]
    show min (e - -52) (max ((52 : Nat) + 1 + e - ((52 : Nat) + 1 + -52) - 53) (-1074)) = e - 1
    omega
  have hshift : (e - -52 - (e - 1)).toNat = 53 := by omega
  have hquotient : m <<< 53 = m * 2 ^ 1 * 2 ^ 52 := by
    rw [Nat.shiftLeft_eq]
    omega
  rw [divCore, htarget, hshift, hquotient, Nat.mul_div_cancel _ (Nat.two_pow_pos 52),
    Nat.mul_mod_left]
  rfl

/-- A quotient by one is exact. -/
theorem double_div_one (h : Normal m e) (s : Sign) :
    double s h / double .positive one = double s h := by
  have hsign : s / .positive = s := by cases s <;> rfl
  show Float.ofModel (Float.Model.pack (UnpackedFloat.div Format.binary64
    (double s h).toModel.unpack (double .positive one).toModel.unpack)) = _
  rw [h.unpack_double, one.unpack_double, UnpackedFloat.div, h.divCore_one, hsign]
  exact congrArg (fun u => Float.ofModel (Float.Model.pack u)) (h.roundWithAccuracy_eq s 1)

end Normal

theorem ofNat_one : Float.ofNat 1 = double .positive Normal.one := by
  decide

/-! ## Integers -/

/-- A positive integer below 2^53 is shifted to 53 bits. -/
theorem normal_natCast {n : Nat} (hpos : 0 < n) (hlt : n < 2 ^ 53) :
    Normal (n * 2 ^ (52 - n.log2)) ((n.log2 : Int) - 52) := by
  have hne : n ≠ 0 := Nat.ne_of_gt hpos
  have hlog : n.log2 < 53 := (Nat.log2_lt hne).mpr hlt
  have hlower : 2 ^ n.log2 ≤ n := Nat.log2_self_le hne
  have hupper : n < 2 ^ (n.log2 + 1) := Nat.lt_log2_self
  have hpow : 2 ^ n.log2 * 2 ^ (52 - n.log2) = 2 ^ 52 := by
    rw [← Nat.pow_add, Nat.add_sub_cancel' (by omega)]
  refine ⟨?_, ?_, by omega, by omega⟩
  · rw [← hpow]
    exact Nat.mul_le_mul_right _ hlower
  · have hpow' : 2 ^ (n.log2 + 1) * 2 ^ (52 - n.log2) = 2 ^ 53 := by
      rw [Nat.pow_succ, Nat.mul_right_comm, hpow]
      rfl
    rw [← hpow']
    exact Nat.mul_lt_mul_of_pos_right hupper (Nat.two_pow_pos _)

/-- An integer below 2^53 is rounded to itself. -/
theorem round_natCast {n : Nat} (hpos : 0 < n) (hlt : n < 2 ^ 53) :
    UnpackedFloat.round Format.binary64 .positive n 0
      = .finite .positive (n * 2 ^ (52 - n.log2)) (n.log2 - 52) (normal_natCast hpos hlt).pos := by
  have hlog : n.log2 < 53 := (Nat.log2_lt (Nat.ne_of_gt hpos)).mpr hlt
  have htarget : Format.binary64.targetExponent (totalExponent n 0) = n.log2 - 52 := by
    rw [totalExponent]
    show max ((n.log2 : Int) + 1 + 0 - 53) (-1074) = _
    omega
  have hshift : (0 - ((n.log2 : Int) - 52)).toNat = 52 - n.log2 := by omega
  have hexponent : (0 : Int) - (52 - n.log2 : Nat) = n.log2 - 52 := by omega
  have hround := (normal_natCast hpos hlt).roundWithAccuracy_eq .positive 0
  rw [Nat.pow_zero, Nat.mul_one, Int.natCast_zero, Int.sub_zero] at hround
  rw [UnpackedFloat.round, htarget, decreaseExponent, hshift, Nat.shiftLeft_eq]
  simp only [hexponent, hround]

/-- A number is converted as a word and then multiplied by a power of ten, here by one. -/
theorem ofNat_eq {n : Nat} (hpos : 0 < n) (hlt : n < 2 ^ 53) :
    Float.ofNat n = double .positive (normal_natCast hpos hlt) := by
  have hword : n.toUInt64.toNat = n :=
    UInt64.toNat_ofNat_of_lt' (Nat.lt_trans hlt (by decide))
  have hcompare : compare (n : Int) 0 = .gt := Int.compare_eq_gt.mpr (Int.natCast_pos.mpr hpos)
  have hfloat : n.toUInt64.toFloat = double .positive (normal_natCast hpos hlt) := by
    show Float.ofModel (Float.Model.pack
      (UnpackedFloat.normalize Format.binary64 n.toUInt64.toNat 0 .positive)) = _
    rw [hword, UnpackedFloat.normalize, hcompare]
    show Float.ofModel (Float.Model.pack (UnpackedFloat.round Format.binary64 .positive n 0)) = _
    rw [round_natCast hpos hlt]
    rfl
  have hten : Float.exactlyRepresentablePowersOfTen[0] = double .positive Normal.one := by
    decide
  show Float.ofScientific n false 0 = _
  rw [Float.ofScientific, dif_pos ⟨hlt, by omega⟩]
  show n.toUInt64.toFloat * Float.exactlyRepresentablePowersOfTen[0] = _
  rw [hfloat, hten]
  exact (normal_natCast hpos hlt).double_mul_one .positive

/-- A double that holds an integer below 2^53 is taken for that integer. -/
theorem toSafeInteger?_double {n : Nat} (hpos : 0 < n) (hlt : n < 2 ^ 53) (s : Sign) :
    (double s (normal_natCast hpos hlt)).toSafeInteger? = some (s.apply n) := by
  have hlog : n.log2 < 53 := (Nat.log2_lt (Nat.ne_of_gt hpos)).mpr hlt
  have hexponent : (n.log2 : Int) - 52 = -(52 - n.log2 : Nat) := by omega
  have hmax : Number.maxSafeInteger.toNat = 2 ^ 53 - 1 := by decide
  obtain ⟨hwhole, hmagnitude⟩ := Dyadic.scaled_whole (s == .negative) n (52 - n.log2)
  rw [Number.toSafeInteger?, (normal_natCast hpos hlt).ofFloat?_double, hexponent]
  dsimp only
  rw [hwhole, Dyadic.whole, hmagnitude, Bool.true_and, if_pos (decide_eq_true (by omega))]
  cases s <;> rfl

/-- An integer of magnitude below 2^53 is a double, and the double is taken for that integer. -/
theorem toSafeInteger?_ofInt {k : Int} (h : k.natAbs < 2 ^ 53) :
    Number.toSafeInteger? (Float.ofInt k / Float.ofNat 1) = some k := by
  rw [ofNat_one]
  cases k with
  | ofNat n =>
      rcases Nat.eq_zero_or_pos n with rfl | hpos
      · decide +kernel
      · show Number.toSafeInteger? (Float.ofNat n / _) = _
        rw [ofNat_eq hpos h, Normal.double_div_one]
        exact toSafeInteger?_double hpos h .positive
  | negSucc n =>
      show Number.toSafeInteger? ((Float.ofNat (n + 1)).neg / _) = _
      rw [ofNat_eq (Nat.succ_pos n) h, Normal.double_neg, Normal.double_div_one]
      exact toSafeInteger?_double (Nat.succ_pos n) h .negative

end Number

end Formulary
