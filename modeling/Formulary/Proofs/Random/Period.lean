import Formulary.Random.Generator
import Mathlib.Algebra.Group.Nat.Defs
import Mathlib.Data.Nat.ModEq
import Mathlib.Data.Nat.Prime.Basic
import Mathlib.Data.Stream.Init
import Mathlib.Order.Bounds.Defs

/-!
# The cycle of a generator

Every draw adds the same number to the state, and the number is odd. So all words come up before one
of them comes up again: there is a single cycle of states, and a seed is a place in it. Two seeds give
the same stream of values, one of them from further on.

- `Generator.behind` is the generator behind some draws, and `Generator.toNat_behind` its state.
- `Generator.behind_eq_self_iff` says when a state comes up again, and `Generator.exists_behind` that
  every state comes up.
- `Generator.stream` is all that is drawn from a generator, and `Generator.stream_behind` all that is
  drawn from it later.
- `Generator.single_cycle` is the statement about seeds.
-/

namespace Formulary.Generator

/-- The generator behind `k` draws. -/
def behind (g : Generator) (k : Nat) : Generator := (fun g => g.draw.2)^[k] g

/-- All values that are drawn from a generator in turn, where `next` draws one. -/
def stream {α : Type} (next : Generator → α × Generator) (g : Generator) : Stream' α :=
  Stream'.corec' next g

/-! ## States -/

theorem behind_succ (g : Generator) (k : Nat) : g.behind (k + 1) = (g.behind k).advance :=
  Function.iterate_succ_apply' _ k g

/-- One increment for each draw. -/
theorem toNat_behind (g : Generator) (k : Nat) :
    (g.behind k).state.toNat = (g.state.toNat + k * increment.toNat) % 2 ^ 32 := by
  induction k with
  | zero =>
      rw [Nat.zero_mul, Nat.add_zero, Nat.mod_eq_of_lt g.state.toNat_lt]
      rfl
  | succ k ih =>
      rw [behind_succ, advance, UInt32.toNat_add, ih, Nat.mod_add_mod, Nat.succ_mul, Nat.add_assoc]

theorem behind_eq_iff {g h : Generator} {k : Nat} :
    g.behind k = h ↔ g.state.toNat + k * increment.toNat ≡ h.state.toNat [MOD 2 ^ 32] := by
  rw [Nat.ModEq, ← toNat_behind, Nat.mod_eq_of_lt h.state.toNat_lt]
  constructor
  · intro heq
    rw [heq]
  · intro heq
    have hstate : (g.behind k).state = h.state := UInt32.toNat_inj.mp heq
    show Generator.mk (g.behind k).state = ⟨h.state⟩
    rw [hstate]

/-- The increment is odd. -/
theorem coprime_increment : Nat.Coprime (2 ^ 32) increment.toNat := by
  have hodd : increment.toNat % 2 = 1 := by decide
  exact (Nat.coprime_two_left.mpr (Nat.odd_iff.mpr hodd)).pow_left 32

/-- A state comes up again behind 2^32 draws, and never in between. -/
theorem behind_eq_self_iff {g : Generator} {k : Nat} : g.behind k = g ↔ 2 ^ 32 ∣ k := by
  rw [behind_eq_iff]
  constructor
  · intro hmod
    have hzero : k * increment.toNat ≡ 0 [MOD 2 ^ 32] := Nat.ModEq.add_left_cancel' _ hmod
    exact coprime_increment.dvd_of_dvd_mul_right (Nat.modEq_zero_iff_dvd.mp hzero)
  · intro hdvd
    have hzero : k * increment.toNat ≡ 0 [MOD 2 ^ 32] :=
      Nat.modEq_zero_iff_dvd.mpr (Dvd.dvd.mul_right hdvd _)
    exact hzero.add_left g.state.toNat

/-- Every state comes up. -/
theorem exists_behind (g h : Generator) : ∃ j < 2 ^ 32, g.behind j = h := by
  obtain ⟨m, -, hm⟩ :=
    Nat.exists_mul_mod_eq_one_of_coprime coprime_increment.symm (by decide : 1 < 2 ^ 32)
  -- the way from one state to the other, counted in increments
  let way := 2 ^ 32 - g.state.toNat + h.state.toNat
  refine ⟨way * m % 2 ^ 32, Nat.mod_lt _ (by decide), behind_eq_iff.mpr ?_⟩
  have hunit : increment.toNat * m ≡ 1 [MOD 2 ^ 32] := hm
  have hle : g.state.toNat ≤ 2 ^ 32 := Nat.le_of_lt g.state.toNat_lt
  have hway : way * m % 2 ^ 32 * increment.toNat ≡ way [MOD 2 ^ 32] :=
    calc way * m % 2 ^ 32 * increment.toNat
        ≡ way * m * increment.toNat [MOD 2 ^ 32] := (Nat.mod_modEq _ _).mul_right _
      _ = way * (increment.toNat * m) := by rw [Nat.mul_assoc, Nat.mul_comm m]
      _ ≡ way * 1 [MOD 2 ^ 32] := hunit.mul_left _
      _ = way := Nat.mul_one _
  calc g.state.toNat + way * m % 2 ^ 32 * increment.toNat
      ≡ g.state.toNat + way [MOD 2 ^ 32] := hway.add_left _
    _ = 2 ^ 32 + h.state.toNat := by omega
    _ ≡ h.state.toNat [MOD 2 ^ 32] := Nat.add_modEq_left

/-! ## Streams -/

/-- What is drawn behind `j` draws is what is drawn from the start on, without the first `j`. -/
theorem stream_behind {α : Type} (next : Generator → α × Generator)
    (hnext : ∀ g, (next g).2 = g.draw.2) (g : Generator) (j : Nat) :
    stream next (g.behind j) = (stream next g).drop j := by
  induction j generalizing g with
  | zero => rfl
  | succ j ih =>
      have hrest : (stream next g).tail = stream next (g.behind 1) := by
        rw [stream, Stream'.corec'_eq, Stream'.tail_cons, hnext]
        rfl
      have hstep : g.behind (j + 1) = (g.behind 1).behind j := Function.iterate_succ_apply _ j g
      rw [Stream'.drop_succ, hrest, hstep, ih]

/-- There is a single cycle. From every seed, the state is what it was at the start for the first time
behind 2^32 draws. Of two seeds, each gives the words and the values that the other one gives once
fewer than 2^32 draws have been made from it. -/
theorem single_cycle (seed : Number) :
    IsLeast {k | 0 < k ∧ ((ofSeed seed).behind k).state = (ofSeed seed).state} (2 ^ 32)
      ∧ ∀ other : Number, ∃ j < 2 ^ 32,
        stream draw (ofSeed other) = (stream draw (ofSeed seed)).drop j
          ∧ stream drawFraction (ofSeed other) = (stream drawFraction (ofSeed seed)).drop j := by
  have hstate : ∀ k, ((ofSeed seed).behind k).state = (ofSeed seed).state ↔ 2 ^ 32 ∣ k := by
    intro k
    rw [← behind_eq_self_iff (g := ofSeed seed)]
    exact ⟨fun h => congrArg Generator.mk h, congrArg Generator.state⟩
  constructor
  · constructor
    · exact ⟨by decide, (hstate _).mpr (Nat.dvd_refl _)⟩
    · rintro k ⟨hpos, hk⟩
      exact Nat.le_of_dvd hpos ((hstate k).mp hk)
  · intro other
    obtain ⟨j, hj, hbehind⟩ := exists_behind (ofSeed seed) (ofSeed other)
    rw [← hbehind]
    exact ⟨j, hj, stream_behind draw (fun _ => rfl) _ j,
      stream_behind drawFraction (fun _ => rfl) _ j⟩

end Formulary.Generator
