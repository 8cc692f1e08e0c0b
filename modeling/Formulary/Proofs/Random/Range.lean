import Formulary.Proofs.Evaluation.Transport
import Formulary.Proofs.Number.Integers
import Formulary.Proofs.Number.Rounding
import Formulary.Proofs.Random.Accounting

/-!
# Integers drawn between two bounds

An integer is drawn by taking a share of the range and dropping its fraction, with a rounding behind
every operation. Whatever the rounding does within its two laws, the share never reaches the end of
the range, though the width itself may be rounded up. So a draw is refused for its bounds only, and the
bounds that a seeded provider asks with are never refused.

- `Generator.exists_over_share` finds a value below the width that no share is rounded over, and
  `Generator.integerAt_bounds` says that a word becomes an integer in the range.
- `Generator.integerBelowWith` is a draw below a bound under some rounding.
- `Generator.Raising` is the seeded provider that keeps the first fault it comes by.
- `Generator.integers_in_range` is the statement about draws, answers and evaluations.
-/

namespace Formulary

namespace Rounding.Valid

variable {round : Rat → Rat}

/-- Integers of magnitude up to 2^53 are left alone. -/
theorem intCast (hround : Valid round) {n : Int} (h : n.natAbs ≤ 2 ^ 53) :
    round n = n := by
  have hfixed := hround.fixed n 0 h
  rwa [zpow_zero, mul_one] at hfixed

/-- Up to 2^54 the even integers are left alone. -/
theorem two_mul (hround : Valid round) {n : Int} (h : n.natAbs ≤ 2 ^ 53) :
    round (2 * n : Int) = (2 * n : Int) := by
  have hfixed := hround.fixed n 1 h
  rw [zpow_one, mul_comm] at hfixed
  exact_mod_cast hfixed

/-- No value from zero on is rounded below zero. -/
theorem nonneg (hround : Valid round) {x : Rat} (h : 0 ≤ x) : 0 ≤ round x := by
  have hzero : round (0 : Int) = (0 : Int) := hround.intCast (by decide)
  calc (0 : Rat) = round 0 := by exact_mod_cast hzero.symm
    _ ≤ round x := hround.monotone h

end Rounding.Valid

namespace Generator

open Rounding

/-! ## The share of a word -/

/-- The part of a range that a word leaves behind it. -/
def share (word : UInt32) : Rat := (word.toNat : Rat) / Rat.pow 2 32

theorem share_nonneg (word : UInt32) : 0 ≤ share word :=
  div_nonneg (Nat.cast_nonneg _) (by decide)

/-- No word leaves more of a range behind it than all but one part of 2^32. -/
theorem share_mul_le (word : UInt32) {width : Rat} (h : 0 ≤ width) :
    share word * width ≤ width - width / 4294967296 := by
  have hpow : Rat.pow 2 32 = 4294967296 := rfl
  have hword : (word.toNat : Rat) + 1 ≤ 4294967296 := by exact_mod_cast word.toNat_lt
  have hshare : share word ≤ 1 - 1 / 4294967296 := by
    rw [share, hpow, div_le_iff₀ (by decide)]
    linarith
  calc share word * width ≤ (1 - 1 / 4294967296) * width := mul_le_mul_of_nonneg_right hshare h
    _ = width - width / 4294967296 := by ring

section

variable {round : Rat → Rat}

/-- Where a width has no more than 53 bits in steps of `2^(-k)`, and there are no fewer of these steps
than words, the greatest step below the width is over all shares. -/
theorem exists_step_over_share (hround : Valid round) (word : UInt32) {width : Int} (k : Nat)
    (hwidth : 0 < width) (hsteps : width * 2 ^ k ≤ 2 ^ 53)
    (hwords : 2 ^ 32 ≤ width * 2 ^ k) :
    ∃ x : Rat, round x = x ∧ share word * width ≤ x ∧ x < width := by
  have hstep : (0 : Rat) < 2 ^ (-k : Int) := zpow_pos two_pos _
  have hunit : (2 : Rat) ^ k * 2 ^ (-k : Int) = 1 := by
    rw [← zpow_natCast, ← zpow_add₀ two_ne_zero, Int.add_right_neg, zpow_zero]
  refine ⟨width - 2 ^ (-k : Int), ?_, ?_, by linarith⟩
  · have hgrid : (width : Rat) - 2 ^ (-k : Int)
        = ((width * 2 ^ k - 1 : Int) : Rat) * 2 ^ (-k : Int) := by
      push_cast
      rw [sub_mul, mul_assoc, hunit, mul_one, one_mul]
    rw [hgrid]
    exact hround.fixed _ _ (by omega)
  · have hwords' : (4294967296 : Rat) ≤ width * 2 ^ k := by exact_mod_cast hwords
    have hpart : 4294967296 * 2 ^ (-k : Int) ≤ (width : Rat) := by
      have := mul_le_mul_of_nonneg_right hwords' (le_of_lt hstep)
      rwa [mul_assoc, hunit, mul_one] at this
    have hshare : share word * width ≤ width - (width : Rat) / 4294967296 :=
      share_mul_le word (by exact_mod_cast le_of_lt hwidth)
    linarith

/-- Over 2^53 a width may be rounded up, but by no more than one, while even the greatest share is
far more than one below it. -/
theorem exists_even_over_share (hround : Valid round) (word : UInt32) {width : Int}
    (hwide : 2 ^ 53 < width) (hmax : width < 2 ^ 54) :
    ∃ x : Rat, round x = x ∧ share word * round width ≤ x ∧ x < width := by
  have hround_le : round width ≤ width + 1 := by
    have heven : round (2 * ((width + 1) / 2) : Int) = (2 * ((width + 1) / 2) : Int) :=
      hround.two_mul (by omega)
    have hover : width ≤ 2 * ((width + 1) / 2) := by omega
    have hnear : 2 * ((width + 1) / 2) ≤ width + 1 := by omega
    calc round width ≤ round (2 * ((width + 1) / 2) : Int) :=
        hround.monotone (by exact_mod_cast hover)
      _ = (2 * ((width + 1) / 2) : Int) := heven
      _ ≤ width + 1 := by exact_mod_cast hnear
  have hround_nonneg : 0 ≤ round width :=
    hround.nonneg (by exact_mod_cast (by omega : 0 ≤ width))
  have hwide' : (9007199254740992 : Rat) ≤ width := by exact_mod_cast (by omega)
  refine ⟨(2 * ((width - 1) / 2) : Int), hround.two_mul (by omega), ?_, ?_⟩
  · have hbelow : width - 2 ≤ 2 * ((width - 1) / 2) := by omega
    have hbelow' : (width : Rat) - 2 ≤ (2 * ((width - 1) / 2) : Int) := by exact_mod_cast hbelow
    have hshare := share_mul_le word hround_nonneg
    linarith
  · exact_mod_cast (by omega : 2 * ((width - 1) / 2) < width)

/-- No share of a width is rounded up to the width. The steps below a small width are as fine as the
words, those below a large one are whole, and in between there are some of either kind. -/
theorem exists_over_share (hround : Valid round) (word : UInt32) {width : Int} (hwidth : 0 < width)
    (hmax : width < 2 ^ 54) :
    ∃ x : Rat, round x = x ∧ share word * round width ≤ x ∧ x < width := by
  rcases lt_or_ge (2 ^ 53 : Int) width with hwide | hnarrow
  · exact exists_even_over_share hround word hwide hmax
  rw [hround.intCast (by omega)]
  rcases le_or_gt width (2 ^ 21) with hsmall | hsmall
  · exact exists_step_over_share hround word 32 hwidth (by omega) (by omega)
  rcases le_or_gt width (2 ^ 42) with hmedium | hlarge
  · exact exists_step_over_share hround word 11 hwidth (by omega) (by omega)
  · exact exists_step_over_share hround word 0 hwidth (by omega) (by omega)

/-- The integer part of a rounded share lies in the range. -/
theorem floor_share_bounds (hround : Valid round) (word : UInt32) {width : Int} (hwidth : 0 < width)
    (hmax : width < 2 ^ 54) :
    0 ≤ (round (share word * round width)).floor
      ∧ (round (share word * round width)).floor < width := by
  obtain ⟨x, hx, hle, hlt⟩ := exists_over_share hround word hwidth hmax
  have hround_nonneg : 0 ≤ round width :=
    hround.nonneg (by exact_mod_cast le_of_lt hwidth)
  constructor
  · refine Rat.le_floor_iff.mpr ?_
    exact_mod_cast hround.nonneg (mul_nonneg (share_nonneg word) hround_nonneg)
  · refine Rat.floor_lt_iff.mpr ?_
    calc round (share word * round width) ≤ round x := hround.monotone hle
      _ = x := hx
      _ < width := hlt

/-- A safe integer is one of magnitude below 2^53. -/
theorem isSafe_iff (n : Int) : isSafe n = true ↔ n.natAbs < 2 ^ 53 := by
  have hmax : Number.maxSafeInteger = 9007199254740991 := by decide
  rw [isSafe, hmax, Bool.and_eq_true, decide_eq_true_iff, decide_eq_true_iff]
  omega

/-- The integer of a word between two bounds, where the width and the share are rounded and the sum is
not. -/
def integerAt (round : Rat → Rat) (word : UInt32) (low high : Int) : Int :=
  low + (round (share word * round (high - low : Int))).floor

/-- A word becomes an integer from the lower bound up to the upper one. -/
theorem integerAt_bounds (hround : Valid round) (word : UInt32) {low high : Int}
    (hlow : isSafe low = true) (hhigh : isSafe high = true) (h : low < high) :
    low ≤ integerAt round word low high ∧ integerAt round word low high < high := by
  rw [isSafe_iff] at hlow hhigh
  have hwidth : 0 < high - low ∧ high - low < 2 ^ 54 := by omega
  have hbounds := floor_share_bounds hround word hwidth.1 hwidth.2
  rw [integerAt]
  omega

/-- The last of the three roundings changes nothing, since the sum lies between the bounds. -/
theorem spread_eq (hround : Valid round) (word : UInt32) {low high : Int}
    (hlow : isSafe low = true) (hhigh : isSafe high = true) (h : low < high) :
    spread round word low high = integerAt round word low high := by
  have hbounds := integerAt_bounds hround word hlow hhigh h
  rw [isSafe_iff] at hlow hhigh
  have hsafe : (integerAt round word low high).natAbs ≤ 2 ^ 53 := by omega
  exact hround.intCast hsafe

/-- A draw between safe bounds that leave a range is not refused. -/
theorem drawIntegerWith_eq (hround : Valid round) (g : Generator) {low high : Int}
    (hlow : isSafe low = true) (hhigh : isSafe high = true) (h : low < high) :
    g.drawIntegerWith round low high = .ok (integerAt round g.draw.1 low high, g.draw.2) := by
  rw [drawIntegerWith, hlow, hhigh, Bool.and_self, if_pos rfl, if_pos h,
    ← spread_eq hround g.draw.1 hlow hhigh h]

end

/-- The double of an integer that a word gives is taken for that integer. -/
theorem toSafeInteger?_integerOf (word : UInt32) {low high : Int} (hlow : isSafe low = true)
    (hhigh : isSafe high = true) (h : low < high) :
    (integerOf word low high).toSafeInteger? = some (integerAt toDouble word low high) := by
  have hbounds := integerAt_bounds valid_toDouble word hlow hhigh h
  rw [integerOf, spread_eq valid_toDouble word hlow hhigh h]
  generalize integerAt toDouble word low high = n at hbounds
  rw [isSafe_iff] at hlow hhigh
  show Number.toSafeInteger? (Float.ofInt n / Float.ofNat 1) = some n
  exact Number.toSafeInteger?_ofInt (by omega)

end Generator

/-! ## Bounds that are asked with -/

namespace Draw

/-- What may be drawn below a bound: zero, or an integer from zero up to the integer part of the
bound. -/
def Fits (bound : Number) (k : Int) : Prop :=
  k = 0 ∨ ∃ n, bound.integerPart? = some n ∧ 0 ≤ k ∧ k < n

theorem integerPart?_of_positiveBound? {bound : Number} {n : Int}
    (h : positiveBound? bound = some n) : bound.integerPart? = some n := by
  rw [positiveBound?] at h
  split at h
  · cases h
  · rename_i hpart
    split at h
    · rwa [← h]
    · cases h

/-- A bound that integers are drawn below is safe. -/
theorem isSafe_of_positiveBound? {bound : Number} {n : Int} (h : positiveBound? bound = some n) :
    Generator.isSafe n = true := by
  obtain ⟨hpos, hle⟩ := positiveBound?_eq_some h
  have hmax : Number.maxSafeInteger = 9007199254740991 := by decide
  rw [Generator.isSafe_iff]
  omega

end Draw

namespace Generator

open Rounding

/-- A draw of an integer from zero up to a bound; a bound below which no integer can be drawn gives
zero and draws nothing. -/
def integerBelowWith (round : Rat → Rat) (g : Generator) (bound : Number) :
    Except RangeFault (Rat × Generator) :=
  match Draw.positiveBound? bound with
  | none => .ok (0, g)
  | some n => g.drawIntegerWith round 0 n

theorem isSafe_zero : isSafe 0 = true := by decide

/-- A draw below any bound succeeds and fits it. -/
theorem integerBelowWith_eq {round : Rat → Rat} (hround : Valid round) (g : Generator)
    (bound : Number) :
    ∃ (k : Int) (behind : Generator),
      g.integerBelowWith round bound = .ok (k, behind) ∧ Draw.Fits bound k := by
  rw [integerBelowWith]
  cases hbound : Draw.positiveBound? bound with
  | none => exact ⟨0, g, rfl, .inl rfl⟩
  | some n =>
      have hsafe := Draw.isSafe_of_positiveBound? hbound
      have hpos := (Draw.positiveBound?_eq_some hbound).1
      exact ⟨_, _, drawIntegerWith_eq hround g isSafe_zero hsafe hpos,
        .inr ⟨n, Draw.integerPart?_of_positiveBound? hbound,
          integerAt_bounds hround g.draw.1 isSafe_zero hsafe hpos⟩⟩

/-- No answer of a seeded provider is in place of a fault. -/
theorem answer?_eq_ok_answer (g : Generator) (request : Draw) :
    g.answer? request = .ok (g.answer request) := by
  rw [answer, answer?_eq]

/-- The double that a seeded provider answers with is an integer that fits the bound. -/
theorem answer_fits (g : Generator) (bound : Number) :
    ∃ k : Int, (g.answer (.integerBelow bound)).1.toSafeInteger? = some k ∧ Draw.Fits bound k := by
  have hanswer : g.answer (.integerBelow bound) = _ := g.answer_eq (.integerBelow bound)
  rw [hanswer, Draw.outcome]
  cases hbound : Draw.positiveBound? bound with
  | none =>
      have hzero : Number.toSafeInteger? 0 = some 0 := by decide +kernel
      exact ⟨0, hzero, .inl rfl⟩
  | some n =>
      have hsafe := Draw.isSafe_of_positiveBound? hbound
      have hpos := (Draw.positiveBound?_eq_some hbound).1
      exact ⟨_, toSafeInteger?_integerOf g.draw.1 isSafe_zero hsafe hpos,
        .inr ⟨n, Draw.integerPart?_of_positiveBound? hbound,
          integerAt_bounds valid_toDouble g.draw.1 isSafe_zero hsafe hpos⟩⟩

/-! ## Evaluations -/

/-- A seeded provider that raises a refused range: where it stands, or the fault that it raised. -/
abbrev Raising := Except RangeFault Generator

/-- An answer, or the fault that is raised in its place. -/
def Raising.keep : Except RangeFault (Number × Generator) → Number × Raising
  | .ok (x, behind) => (x, .ok behind)
  | .error fault => (0, .error fault)

/-- A provider that has raised a fault stays at it, whatever is asked. -/
instance : RandomProvider Raising where
  answer provider request := Raising.keep (provider >>= fun g => g.answer? request)

/-- A seeded provider answers as it would if it raised refused ranges. -/
theorem commutes_ok : RandomProvider.Commutes (Except.ok : Generator → Raising) := by
  intro g request
  show Raising.keep (g.answer? request) = _
  rw [answer?_eq_ok_answer]
  rfl

/-- Integers are drawn in range. Under every valid rounding, of which that of doubles is one, a draw
between two bounds is an integer from the lower one up to the upper one, and a draw below a bound is
never refused and fits the bound. So does the double that a seeded provider answers with, and an
evaluation with a seeded provider that raises refused ranges is one with a provider that does not: no
fault is ever raised. -/
theorem integers_in_range :
    Valid toDouble
      ∧ (∀ (round : Rat → Rat), Valid round → ∀ g : Generator,
        (∀ low high, isSafe low = true → isSafe high = true → low < high →
          g.drawIntegerWith round low high = .ok (integerAt round g.draw.1 low high, g.draw.2)
            ∧ low ≤ integerAt round g.draw.1 low high ∧ integerAt round g.draw.1 low high < high)
        ∧ ∀ bound, ∃ (k : Int) (behind : Generator),
          g.integerBelowWith round bound = .ok (k, behind) ∧ Draw.Fits bound k)
      ∧ (∀ (g : Generator) (bound : Number), ∃ k : Int,
        (RandomProvider.answer g (.integerBelow bound)).1.toSafeInteger? = some k
          ∧ Draw.Fits bound k)
      ∧ ∀ (node : Node) (context : Context) (sources : Sources Generator),
        node.run context (sources.map (Except.ok : Generator → Raising))
          = (node.run context sources).map Except.ok := by
  refine ⟨valid_toDouble, ?_, answer_fits, Node.run_map commutes_ok⟩
  intro round hround g
  constructor
  · intro low high hlow hhigh h
    exact ⟨drawIntegerWith_eq hround g hlow hhigh h, integerAt_bounds hround g.draw.1 hlow hhigh h⟩
  · exact integerBelowWith_eq hround g

/-- A width of 2^54 - 3 is rounded, and the draw is in range all the same. -/
theorem integers_in_range_widest :
    let low : Int := -9007199254740991
    let high : Int := 9007199254740990
    let g : Generator := ⟨0⟩
    toDouble (high - low : Int) ≠ (high - low : Int)
      ∧ isSafe low = true ∧ isSafe high = true ∧ low < high
      ∧ g.drawIntegerWith toDouble low high
        = .ok (integerAt toDouble g.draw.1 low high, g.draw.2)
      ∧ low ≤ integerAt toDouble g.draw.1 low high
      ∧ integerAt toDouble g.draw.1 low high < high := by
  intro low high g
  have hlow : isSafe low = true := by decide
  have hhigh : isSafe high = true := by decide
  have h : low < high := by decide
  exact ⟨by decide +kernel, hlow, hhigh, h,
    ((integers_in_range.2.1 toDouble integers_in_range.1 g).1 low high hlow hhigh h)⟩

end Generator

end Formulary
