import Formulary.Token.Scan

/-!
# Classes of units

Blanks, the units of numbers and the units that start a name are three classes without a common
member, so that the first unit of a lexeme says what kind of lexeme it is. The letters of all scripts
are a long table; it is looked up only at the few units of the other two classes.

- `CodeUnit.isNumeral_mem` and `CodeUnit.isBlank_mem` list the two small classes.
-/

namespace Formulary

namespace CodeUnit

/-- The units of numbers. -/
theorem isNumeral_mem {u : CodeUnit} (h : u.isNumeral = true) :
    u.toNat ∈ [46, 48, 49, 50, 51, 52, 53, 54, 55, 56, 57] := by
  rw [isNumeral, isDigit, Bool.or_eq_true, Bool.and_eq_true] at h
  rcases h with ⟨hlow, hhigh⟩ | hpoint
  · have := of_decide_eq_true hlow
    have := of_decide_eq_true hhigh
    simp only [List.mem_cons]
    omega
  · rw [eq_of_beq hpoint]
    decide

/-- The blank units. -/
theorem isBlank_mem {u : CodeUnit} (h : u.isBlank = true) :
    u.toNat ∈ [9, 10, 11, 12, 13, 32, 160, 5760, 8192, 8193, 8194, 8195, 8196, 8197, 8198, 8199,
      8200, 8201, 8202, 8232, 8233, 8239, 8287, 12288, 65279] := by
  simp only [isBlank, Bool.or_eq_true, Bool.and_eq_true, decide_eq_true_eq, beq_iff_eq] at h
  simp only [List.mem_cons]
  omega

/-- A property of units that fails for some of them fails for every unit of that value. -/
theorem eq_false_of_toNat {p : CodeUnit → Bool} {values : List Nat}
    (hp : ∀ n ∈ values, p (UInt16.ofNat n) = false) {u : CodeUnit} (hu : u.toNat ∈ values) :
    p u = false := by
  have := hp _ hu
  rwa [UInt16.ofNat_toNat] at this

theorem isBlank_eq_false_of_isNumeral {u : CodeUnit} (h : u.isNumeral = true) :
    u.isBlank = false :=
  eq_false_of_toNat (by decide) (isNumeral_mem h)

theorem isNumeral_eq_false_of_startsName {u : CodeUnit} (h : u.startsName = true) :
    u.isNumeral = false := by
  refine Bool.eq_false_iff.mpr fun hnumeral => ?_
  have hstarts : u.startsName = false := eq_false_of_toNat (by decide) (isNumeral_mem hnumeral)
  exact nomatch h.symm.trans hstarts

theorem isBlank_eq_false_of_startsName {u : CodeUnit} (h : u.startsName = true) :
    u.isBlank = false := by
  refine Bool.eq_false_iff.mpr fun hblank => ?_
  have hstarts : u.startsName = false := eq_false_of_toNat (by decide +kernel) (isBlank_mem hblank)
  exact nomatch h.symm.trans hstarts

end CodeUnit

end Formulary
