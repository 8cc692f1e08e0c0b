import Formulary.Number.Dyadic
import Mathlib.Data.Rat.Floor
import Mathlib.Tactic.Linarith

/-!
# What is relied on of a rounding

A rounding keeps the order of values and leaves alone the values that it rounds to. What is said of
draws of integers rests on these two properties and on no other, so it holds of every rounding that
has them, and the rounding of doubles is one.

- `Rounding.Valid` states the two properties.
- `Rounding.binaryOrder_bounds` puts a value between two powers of two, and `Rounding.Nearest` says
  which integer is the nearest to a value.
- `Rounding.valid_toDouble` says that rounding to 53 significant bits is valid.
-/

namespace Formulary

namespace Rounding

/-- A rounding that keeps the order of values and leaves an integer of magnitude up to 2^53 times a
power of two as it is. -/
structure Valid (round : Rat → Rat) : Prop where
  monotone {x y : Rat} (le : x ≤ y) : round x ≤ round y
  fixed (m e : Int) (le : m.natAbs ≤ 2 ^ 53) : round (m * 2 ^ e) = m * 2 ^ e

/-! ## The order of a value -/

theorem two_zpow_natCast (n : Nat) : (2 : Rat) ^ (n : Int) = (2 ^ n : Nat) :=
  (Rat.natCast_pow 2 n).symm

/-- A number is no less than the greatest power of two that it holds. -/
theorem two_zpow_log2_le {n : Nat} (h : n ≠ 0) : (2 : Rat) ^ (n.log2 : Int) ≤ n := by
  rw [two_zpow_natCast]
  exact Rat.natCast_le_natCast.mpr (Nat.log2_self_le h)

/-- A number is less than the next power of two. -/
theorem lt_two_zpow_log2 (n : Nat) : (n : Rat) < 2 ^ ((n.log2 : Int) + 1) := by
  have h : (n : Rat) < (2 ^ (n.log2 + 1) : Nat) :=
    Rat.natCast_lt_natCast.mpr Nat.lt_log2_self
  rwa [← two_zpow_natCast] at h

/-- The orders of numerator and denominator tell the order of a value but for one. -/
theorem binaryOrder_guess {x : Rat} (hx : 0 < x) :
    let guess : Int := (x.num.natAbs.log2 : Int) - x.den.log2
    (2 : Rat) ^ (guess - 1) ≤ x ∧ x < 2 ^ (guess + 1) := by
  intro guess
  have hnum : x.num.natAbs ≠ 0 := Int.natAbs_ne_zero.mpr (ne_of_gt (Rat.num_pos.mpr hx))
  have hden : (0 : Rat) < x.den := Rat.natCast_pos.mpr x.den_pos
  have hx_den : x * x.den = (x.num.natAbs : Rat) := by
    rw [Rat.mul_den_eq_num, ← Rat.intCast_natCast,
      Int.natAbs_of_nonneg (Rat.num_nonneg.mpr (le_of_lt hx))]
  constructor
  · have hstep : (2 : Rat) ^ (guess - 1) * x.den ≤ x * x.den := calc
      (2 : Rat) ^ (guess - 1) * x.den
        ≤ 2 ^ (guess - 1) * 2 ^ ((x.den.log2 : Int) + 1) :=
          mul_le_mul_of_nonneg_left (le_of_lt (lt_two_zpow_log2 _)) (zpow_nonneg zero_le_two _)
      _ = 2 ^ (x.num.natAbs.log2 : Int) := by
          rw [← zpow_add₀ two_ne_zero]
          congr 1
          omega
      _ ≤ x * x.den := by
          rw [hx_den]
          exact two_zpow_log2_le hnum
    exact le_of_mul_le_mul_right hstep hden
  · have hstep : x * x.den < 2 ^ (guess + 1) * x.den := calc
      x * x.den < 2 ^ ((x.num.natAbs.log2 : Int) + 1) := by
          rw [hx_den]
          exact lt_two_zpow_log2 _
      _ = 2 ^ (guess + 1) * 2 ^ (x.den.log2 : Int) := by
          rw [← zpow_add₀ two_ne_zero]
          congr 1
          omega
      _ ≤ 2 ^ (guess + 1) * x.den :=
          mul_le_mul_of_nonneg_left (two_zpow_log2_le (ne_of_gt x.den_pos))
            (zpow_nonneg zero_le_two _)
    exact lt_of_mul_lt_mul_right hstep (le_of_lt hden)

/-- The order of a value is the exponent of the greatest power of two up to it. -/
theorem binaryOrder_bounds {x : Rat} (hx : 0 < x) :
    (2 : Rat) ^ binaryOrder x ≤ x ∧ x < 2 ^ (binaryOrder x + 1) := by
  obtain ⟨hlower, hupper⟩ := binaryOrder_guess hx
  rw [binaryOrder]
  split
  · rename_i hle
    exact ⟨hle, hupper⟩
  · rename_i hle
    rw [Int.sub_add_cancel]
    exact ⟨hlower, not_le.mp hle⟩

/-- A lesser value has no greater order. -/
theorem order_mono {x y : Rat} {a b : Int} (hx : (2 : Rat) ^ a ≤ x) (hy : y < 2 ^ (b + 1))
    (h : x ≤ y) : a ≤ b := by
  have hlt : (2 : Rat) ^ a < 2 ^ (b + 1) := lt_of_le_of_lt (le_trans hx h) hy
  exact Int.lt_add_one_iff.mp ((zpow_lt_zpow_iff_right₀ one_lt_two).mp hlt)

/-- Only one exponent has that property. -/
theorem binaryOrder_eq {x : Rat} {b : Int} (hlower : (2 : Rat) ^ b ≤ x)
    (hupper : x < 2 ^ (b + 1)) : binaryOrder x = b := by
  have hx : 0 < x := lt_of_lt_of_le (zpow_pos two_pos b) hlower
  obtain ⟨hlower', hupper'⟩ := binaryOrder_bounds hx
  exact Int.le_antisymm (order_mono hlower' hupper le_rfl) (order_mono hlower hupper' le_rfl)

/-! ## The nearest integer -/

/-- An integer is the nearest to a value; of two at the same distance it is the even one. -/
structure Nearest (x : Rat) (n : Int) : Prop where
  lower : (n : Rat) - 1 / 2 ≤ x
  upper : x ≤ n + 1 / 2
  tie (half : x = n - 1 / 2 ∨ x = n + 1 / 2) : n % 2 = 0

/-- The nearest integer is nearest. -/
theorem nearest_nearestEven (x : Rat) : Nearest x (nearestEven x) := by
  have hlower : (x.floor : Rat) ≤ x := Rat.floor_le x
  have hupper : x < x.floor + 1 := by
    have := Rat.lt_floor_add_one x
    push_cast at this
    exact this
  rw [nearestEven]
  split
  · rename_i hlt
    exact ⟨by linarith, by linarith, by rintro (h | h) <;> linarith⟩
  split
  · rename_i hgt
    refine ⟨?_, ?_, ?_⟩
    · push_cast
      linarith
    · push_cast
      linarith
    · push_cast
      rintro (h | h) <;> linarith
  -- one half above the integer below
  rename_i hge hle
  split
  · rename_i heven
    exact ⟨by linarith, by linarith, fun _ => heven⟩
  · rename_i hodd
    refine ⟨?_, ?_, fun _ => by omega⟩
    · push_cast
      linarith
    · push_cast
      linarith

namespace Nearest

variable {x y : Rat} {m n : Int}

/-- The nearest integers stand in the order of the values. -/
theorem mono (hx : Nearest x m) (hy : Nearest y n) (h : x ≤ y) : m ≤ n := by
  by_contra hlt
  have hsucc : n + 1 ≤ m := not_le.mp hlt
  have hsucc' : (n : Rat) + 1 ≤ m := by exact_mod_cast hsucc
  have hm := hx.lower
  have hn := hy.upper
  -- both values are the point halfway between two neighbours, which are then both even
  have hxm : x = m - 1 / 2 := by linarith
  have hyn : y = n + 1 / 2 := by linarith
  have hmn : m = n + 1 := by
    have : (m : Rat) = n + 1 := by linarith
    exact_mod_cast this
  have hm_even := hx.tie (.inl hxm)
  have hn_even := hy.tie (.inr hyn)
  omega

/-- Only one integer is nearest to a value. -/
theorem eq (h : Nearest x n) : nearestEven x = n :=
  Int.le_antisymm ((nearest_nearestEven x).mono h le_rfl) (h.mono (nearest_nearestEven x) le_rfl)

/-- The nearest integer to the opposite is the opposite of the nearest, since evenness does not
depend on the sign. -/
theorem neg (h : Nearest x n) : Nearest (-x) (-n) where
  lower := by
    have := h.upper
    push_cast
    linarith
  upper := by
    have := h.lower
    push_cast
    linarith
  tie := by
    push_cast
    intro half
    have heven : n % 2 = 0 := by
      refine h.tie ?_
      rcases half with half | half
      · exact .inr (by linarith)
      · exact .inl (by linarith)
    omega

/-- An integer is the nearest to itself. -/
theorem intCast (n : Int) : Nearest n n :=
  ⟨by linarith, by linarith, by rintro (h | h) <;> linarith⟩

end Nearest

/-- Rounding to an integer keeps the order. -/
theorem nearestEven_mono {x y : Rat} (h : x ≤ y) : nearestEven x ≤ nearestEven y :=
  (nearest_nearestEven x).mono (nearest_nearestEven y) h

theorem nearestEven_intCast (n : Int) : nearestEven n = n := (Nearest.intCast n).eq

theorem nearestEven_neg (x : Rat) : nearestEven (-x) = -nearestEven x :=
  (nearest_nearestEven x).neg.eq

/-! ## Rounding to 53 significant bits -/

theorem toDouble_zero : toDouble 0 = 0 := rfl

/-- Rounding does not depend on the sign. -/
theorem toDouble_neg (x : Rat) : toDouble (-x) = -toDouble x := by
  by_cases hx : x = 0
  · rw [hx, neg_zero, toDouble_zero, neg_zero]
  · rw [toDouble, toDouble, toSignificandBits, toSignificandBits, if_neg hx,
      if_neg (neg_ne_zero.mpr hx), Rat.abs_neg]
    dsimp only
    rw [neg_div, nearestEven_neg]
    push_cast
    rw [neg_mul]

/-- A positive value is rounded to a multiple of the unit of its order. -/
theorem toDouble_of_order {x : Rat} {b : Int} (hlower : (2 : Rat) ^ b ≤ x)
    (hupper : x < 2 ^ (b + 1)) :
    toDouble x = nearestEven (x / 2 ^ (b - 52)) * 2 ^ (b - 52) := by
  have hx : 0 < x := lt_of_lt_of_le (zpow_pos two_pos b) hlower
  rw [toDouble, toSignificandBits, if_neg (ne_of_gt hx), Rat.abs_of_nonneg (le_of_lt hx),
    binaryOrder_eq hlower hupper]
  rfl

/-- A rounding does not go over a multiple of the unit. -/
theorem toDouble_le {x : Rat} {b k : Int} (hlower : (2 : Rat) ^ b ≤ x) (hupper : x < 2 ^ (b + 1))
    (h : x ≤ k * 2 ^ (b - 52)) : toDouble x ≤ k * 2 ^ (b - 52) := by
  have hunit : (0 : Rat) < 2 ^ (b - 52) := zpow_pos two_pos _
  have hle : nearestEven (x / 2 ^ (b - 52)) ≤ k := by
    rw [← nearestEven_intCast k]
    exact nearestEven_mono ((div_le_iff₀ hunit).mpr h)
  rw [toDouble_of_order hlower hupper]
  exact mul_le_mul_of_nonneg_right (by exact_mod_cast hle) (le_of_lt hunit)

/-- A step of the grid that is no more than the value is no more than what the value is rounded to.
-/
theorem le_toDouble {x : Rat} {b k : Int} (hlower : (2 : Rat) ^ b ≤ x) (hupper : x < 2 ^ (b + 1))
    (h : k * 2 ^ (b - 52) ≤ x) : k * 2 ^ (b - 52) ≤ toDouble x := by
  have hunit : (0 : Rat) < 2 ^ (b - 52) := zpow_pos two_pos _
  have hle : k ≤ nearestEven (x / 2 ^ (b - 52)) := by
    rw [← nearestEven_intCast k]
    exact nearestEven_mono ((le_div_iff₀ hunit).mpr h)
  rw [toDouble_of_order hlower hupper]
  exact mul_le_mul_of_nonneg_right (by exact_mod_cast hle) (le_of_lt hunit)

/-- A greater power of two is a whole number of smaller ones. -/
theorem two_zpow_add_natCast (a : Int) (k : Nat) :
    (2 : Rat) ^ (a + k) = ((2 ^ k : Nat) : Int) * 2 ^ a := by
  rw [zpow_add₀ two_ne_zero, two_zpow_natCast, Rat.intCast_natCast, mul_comm]

/-- Rounding stays within the two powers of two around a value. -/
theorem toDouble_bounds {x : Rat} {b : Int} (hlower : (2 : Rat) ^ b ≤ x)
    (hupper : x < 2 ^ (b + 1)) : (2 : Rat) ^ b ≤ toDouble x ∧ toDouble x ≤ 2 ^ (b + 1) := by
  have hb : (2 : Rat) ^ b = ((2 ^ 52 : Nat) : Int) * 2 ^ (b - 52) := by
    rw [← two_zpow_add_natCast]
    congr 1
    omega
  have hb' : (2 : Rat) ^ (b + 1) = ((2 ^ 53 : Nat) : Int) * 2 ^ (b - 52) := by
    rw [← two_zpow_add_natCast]
    congr 1
    omega
  constructor
  · rw [hb]
    exact le_toDouble hlower hupper (hb ▸ hlower)
  · rw [hb']
    exact toDouble_le hlower hupper (hb' ▸ le_of_lt hupper)

/-- No sign appears by rounding. -/
theorem toDouble_nonneg {x : Rat} (hx : 0 ≤ x) : 0 ≤ toDouble x := by
  rcases eq_or_lt_of_le hx with rfl | hpos
  · exact le_of_eq toDouble_zero.symm
  · obtain ⟨hlower, hupper⟩ := binaryOrder_bounds hpos
    exact le_trans (zpow_nonneg zero_le_two _) (toDouble_bounds hlower hupper).1

/-- Rounding keeps the order of positive values, of the same order or of different ones. -/
theorem toDouble_mono_of_pos {x y : Rat} (hx : 0 < x) (h : x ≤ y) : toDouble x ≤ toDouble y := by
  obtain ⟨hlower, hupper⟩ := binaryOrder_bounds hx
  obtain ⟨hlower', hupper'⟩ := binaryOrder_bounds (lt_of_lt_of_le hx h)
  rcases eq_or_lt_of_le (order_mono hlower hupper' h) with hsame | hless
  -- in one order both are multiples of the same unit
  · rw [hsame] at hlower hupper
    rw [toDouble_of_order hlower hupper, toDouble_of_order hlower' hupper']
    have hunit : (0 : Rat) < 2 ^ (binaryOrder y - 52) := zpow_pos two_pos _
    refine mul_le_mul_of_nonneg_right ?_ (le_of_lt hunit)
    exact_mod_cast nearestEven_mono (div_le_div_of_nonneg_right h (le_of_lt hunit))
  -- in two orders there is a power of two between them
  · calc toDouble x ≤ 2 ^ (binaryOrder x + 1) := (toDouble_bounds hlower hupper).2
      _ ≤ 2 ^ binaryOrder y := zpow_le_zpow_right₀ one_le_two hless
      _ ≤ toDouble y := (toDouble_bounds hlower' hupper').1

/-- Rounding keeps the order. -/
theorem toDouble_mono {x y : Rat} (h : x ≤ y) : toDouble x ≤ toDouble y := by
  rcases lt_or_ge 0 x with hx | hx
  · exact toDouble_mono_of_pos hx h
  have hx' : toDouble x ≤ 0 := by
    have := toDouble_nonneg (neg_nonneg.mpr hx)
    rw [toDouble_neg] at this
    exact neg_nonneg.mp this
  rcases le_or_gt 0 y with hy | hy
  · exact le_trans hx' (toDouble_nonneg hy)
  · have := toDouble_mono_of_pos (neg_pos.mpr hy) (neg_le_neg h)
    rw [toDouble_neg, toDouble_neg] at this
    exact neg_le_neg_iff.mp this

/-- A natural number up to 2^53 times a power of two is a multiple of the unit of its order. -/
theorem exists_grid {n : Nat} (hpos : n ≠ 0) (hle : n ≤ 2 ^ 53) (e : Int) :
    ∃ k : Int, (n : Rat) * 2 ^ e = k * 2 ^ (n.log2 + e - 52) := by
  rcases Nat.lt_or_ge 52 n.log2 with hlog | hlog
  -- only 2^53 itself has 54 bits, and it is even
  · have hn : n = 2 ^ 53 :=
      Nat.le_antisymm hle ((Nat.le_log2 hpos).mp hlog)
    subst hn
    have hlog53 : (2 ^ 53).log2 = 53 := by decide
    refine ⟨(2 ^ 52 : Nat), ?_⟩
    rw [← two_zpow_natCast, ← zpow_add₀ two_ne_zero, ← two_zpow_add_natCast, hlog53]
    congr 1
    omega
  · refine ⟨n * (2 ^ (52 - n.log2) : Nat), ?_⟩
    rw [Rat.intCast_mul, mul_assoc, ← two_zpow_add_natCast, Rat.intCast_natCast]
    congr 2
    omega

/-- What has no more than 53 significant bits is left alone. -/
theorem toDouble_natCast_mul {n : Nat} (hle : n ≤ 2 ^ 53) (e : Int) :
    toDouble (n * 2 ^ e) = n * 2 ^ e := by
  rcases Nat.eq_zero_or_pos n with rfl | hpos
  · rw [Nat.cast_zero, zero_mul, toDouble_zero]
  have hlower : (2 : Rat) ^ (n.log2 + e) ≤ n * 2 ^ e := by
    rw [zpow_add₀ two_ne_zero]
    exact mul_le_mul_of_nonneg_right (two_zpow_log2_le (ne_of_gt hpos)) (zpow_nonneg zero_le_two _)
  have hupper : (n : Rat) * 2 ^ e < 2 ^ (n.log2 + e + 1) := by
    rw [add_right_comm, zpow_add₀ two_ne_zero]
    exact mul_lt_mul_of_pos_right (lt_two_zpow_log2 n) (zpow_pos two_pos _)
  obtain ⟨k, hk⟩ := exists_grid (ne_of_gt hpos) hle e
  refine le_antisymm ?_ ?_
  · conv => rhs; rw [hk]
    exact toDouble_le hlower hupper (le_of_eq hk)
  · conv => lhs; rw [hk]
    exact le_toDouble hlower hupper (le_of_eq hk.symm)

/-- The rounding of doubles is valid. -/
theorem valid_toDouble : Valid toDouble where
  monotone := toDouble_mono
  fixed m e le := by
    rcases Int.natAbs_eq m with hm | hm
    · rw [hm, Rat.intCast_natCast]
      exact toDouble_natCast_mul le e
    · rw [hm, Rat.intCast_neg, Rat.intCast_natCast, neg_mul, toDouble_neg,
        toDouble_natCast_mul le e]

end Rounding

end Formulary
