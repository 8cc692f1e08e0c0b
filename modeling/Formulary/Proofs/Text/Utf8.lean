import Formulary.Text.Utf8

/-!
# Reading UTF-8 back

A text in which no surrogate stands alone is read back from its bytes unchanged. The reader takes one
byte at a time and keeps the character that it is in, so the statement is about one character first,
whatever follows it.

- `Text.WellFormed` says that no surrogate stands alone.
- `Utf8.decodeFrom_encode` reads one character, `Text.ofUtf8_toUtf8` a text.
-/

namespace Formulary

/-- No surrogate stands alone. -/
inductive Text.WellFormed : Text → Prop where
  | nil : WellFormed []
  | unit {u : CodeUnit} {rest : Text} (hu : u.isSurrogate = false) (hrest : WellFormed rest) :
    WellFormed (u :: rest)
  | pair {high low : CodeUnit} {rest : Text} (hhigh : high.isHighSurrogate = true)
    (hlow : low.isLowSurrogate = true) (hrest : WellFormed rest) : WellFormed (high :: low :: rest)

namespace Text

/-- Well-formed texts stay so one behind the other. -/
theorem WellFormed.append {t t' : Text} (h : WellFormed t) (h' : WellFormed t') :
    WellFormed (t ++ t') := by
  induction h with
  | nil => exact h'
  | unit hu _ ih => exact .unit hu ih
  | pair hhigh hlow _ ih => exact .pair hhigh hlow ih

/-- A text without surrogates is well formed. -/
theorem WellFormed.of_all {t : Text} (h : t.all (fun u => !u.isSurrogate) = true) :
    WellFormed t := by
  induction t with
  | nil => exact .nil
  | cons u rest ih =>
      rw [List.all_cons, Bool.and_eq_true, Bool.not_eq_true'] at h
      exact .unit h.1 (ih h.2)

end Text

namespace CodeUnit

theorem isSurrogate_eq_false_iff {u : CodeUnit} :
    u.isSurrogate = false ↔ u.toNat < 0xD800 ∨ 0xDFFF < u.toNat := by
  simp only [isSurrogate, isHighSurrogate, isLowSurrogate, Bool.or_eq_false_iff,
    Bool.and_eq_false_iff, decide_eq_false_iff_not]
  omega

theorem isHighSurrogate_iff {u : CodeUnit} :
    u.isHighSurrogate = true ↔ 0xD800 ≤ u.toNat ∧ u.toNat ≤ 0xDBFF := by
  simp only [isHighSurrogate, Bool.and_eq_true, decide_eq_true_eq]

theorem isLowSurrogate_iff {u : CodeUnit} :
    u.isLowSurrogate = true ↔ 0xDC00 ≤ u.toNat ∧ u.toNat ≤ 0xDFFF := by
  simp only [isLowSurrogate, Bool.and_eq_true, decide_eq_true_eq]

end CodeUnit

/-! ## One character -/

namespace Utf8

/-- A code point that is no surrogate. -/
def Scalar (n : Nat) : Prop := n < 0xD800 ∨ 0xDFFF < n ∧ n < 0x110000

/-- One byte is one step of the decoder. -/
theorem decodeFrom_cons (pending : Option Pending) (b : UInt8) (rest : List UInt8) :
    decodeFrom pending (b :: rest)
      = (step pending b.toNat).1 ++ decodeFrom (step pending b.toNat).2 rest := by
  cases pending <;> rfl

/-- A byte that goes on with a character and does not finish it. -/
theorem decodeFrom_continue {p : Pending} {n : Nat} (hlow : p.low ≤ n) (hhigh : p.high ≥ n)
    (hbyte : n < 256) (hmissing : 1 < p.missing) (rest : List UInt8) :
    decodeFrom (some p) (UInt8.ofNat n :: rest)
      = decodeFrom (some ⟨p.missing - 1, 0x80, 0xBF, p.value * 0x40 + (n - 0x80)⟩) rest := by
  rw [decodeFrom_cons, UInt8.toNat_ofNat_of_lt' hbyte, step, if_pos (by simp [hlow, hhigh]),
    if_neg (by omega)]
  rfl

/-- A byte that finishes a character. -/
theorem decodeFrom_finish {p : Pending} {n : Nat} (hlow : p.low ≤ n) (hhigh : p.high ≥ n)
    (hbyte : n < 256) (hmissing : p.missing ≤ 1) (rest : List UInt8) :
    decodeFrom (some p) (UInt8.ofNat n :: rest)
      = Text.ofCodePoint (p.value * 0x40 + (n - 0x80)) ++ decodeFrom none rest := by
  rw [decodeFrom_cons, UInt8.toNat_ofNat_of_lt' hbyte, step, if_pos (by simp [hlow, hhigh]),
    if_pos hmissing]

/-- A byte that starts a character of several bytes. -/
theorem decodeFrom_lead {n : Nat} {p : Pending} (h : lead? n = some p) (hascii : 0x80 ≤ n)
    (hbyte : n < 256) (rest : List UInt8) :
    decodeFrom none (UInt8.ofNat n :: rest) = decodeFrom (some p) rest := by
  rw [decodeFrom_cons, UInt8.toNat_ofNat_of_lt' hbyte, step, begin, if_neg (by omega), h]
  rfl

/-- The bytes of a character are read as it, whatever follows. -/
theorem decodeFrom_encode {n : Nat} (h : Scalar n) (rest : List UInt8) :
    decodeFrom none (encodeCodePoint n ++ rest) = Text.ofCodePoint n ++ decodeFrom none rest := by
  rw [Scalar] at h
  rw [encodeCodePoint]
  -- one case for each number of bytes
  by_cases h1 : n < 0x80
  · rw [if_pos h1, Text.ofCodePoint, if_pos (by omega), List.singleton_append, decodeFrom_cons,
      UInt8.toNat_ofNat_of_lt' (by show n < 256; omega), step, begin, if_pos h1]
  rw [if_neg h1]
  by_cases h2 : n < 0x800
  · have hlead : lead? (0xC0 + n / 0x40) = some ⟨1, 0x80, 0xBF, n / 0x40⟩ := by
      rw [lead?, if_pos (by simp; omega), Nat.add_sub_cancel_left]
    have hvalue : n / 0x40 * 0x40 + (0x80 + n % 0x40 - 0x80) = n := by omega
    rw [if_pos h2]
    show decodeFrom none (_ :: _ :: rest) = _
    rw [decodeFrom_lead hlead (by omega) (by omega),
      decodeFrom_finish (by dsimp only; omega) (by dsimp only; omega) (by omega) (Nat.le_refl 1)]
    dsimp only
    rw [hvalue]
  rw [if_neg h2]
  by_cases h3 : n < 0x10000
  · -- a first byte of E0 or ED bounds the second more tightly: no overlong form, no surrogate
    have hlead : lead? (0xE0 + n / 0x1000)
        = some ⟨2, if 0xE0 + n / 0x1000 = 0xE0 then 0xA0 else 0x80,
            if 0xE0 + n / 0x1000 = 0xED then 0x9F else 0xBF, n / 0x1000⟩ := by
      rw [lead?, if_neg (by simp; omega), if_pos (by simp; omega), Nat.add_sub_cancel_left]
    have hvalue : (n / 0x1000 * 0x40 + (0x80 + n / 0x40 % 0x40 - 0x80)) * 0x40
        + (0x80 + n % 0x40 - 0x80) = n := by omega
    rw [if_pos h3]
    show decodeFrom none (_ :: _ :: _ :: rest) = _
    rw [decodeFrom_lead hlead (by omega) (by omega),
      decodeFrom_continue (by dsimp only; split <;> omega) (by dsimp only; split <;> omega)
        (by omega) (Nat.lt_succ_self 1),
      decodeFrom_finish (by dsimp only; omega) (by dsimp only; omega) (by omega) (Nat.le_refl 1)]
    dsimp only
    rw [hvalue]
  · have hlead : lead? (0xF0 + n / 0x40000)
        = some ⟨3, if 0xF0 + n / 0x40000 = 0xF0 then 0x90 else 0x80,
            if 0xF0 + n / 0x40000 = 0xF4 then 0x8F else 0xBF, n / 0x40000⟩ := by
      rw [lead?, if_neg (by simp; omega), if_neg (by simp; omega), if_pos (by simp; omega),
        Nat.add_sub_cancel_left]
    have hvalue : ((n / 0x40000 * 0x40 + (0x80 + n / 0x1000 % 0x40 - 0x80)) * 0x40
        + (0x80 + n / 0x40 % 0x40 - 0x80)) * 0x40 + (0x80 + n % 0x40 - 0x80) = n := by omega
    rw [if_neg h3]
    show decodeFrom none (_ :: _ :: _ :: _ :: rest) = _
    rw [decodeFrom_lead hlead (by omega) (by omega),
      decodeFrom_continue (by dsimp only; split <;> omega) (by dsimp only; split <;> omega)
        (by omega) (by show 1 < 3; decide),
      decodeFrom_continue (by dsimp only; omega) (by dsimp only; omega) (by omega)
        (Nat.lt_succ_self 1),
      decodeFrom_finish (by dsimp only; omega) (by dsimp only; omega) (by omega) (Nat.le_refl 1)]
    dsimp only
    rw [hvalue]

end Utf8

/-! ## Texts -/

namespace Text

open Utf8

/-- A unit that is no surrogate is a character of its own. -/
theorem codePoints_unit {u : CodeUnit} (h : u.isSurrogate = false) (rest : Text) :
    codePoints (u :: rest) = u.toNat :: codePoints rest := by
  cases rest with
  | nil => rfl
  | cons v rest =>
      have hhigh : u.isHighSurrogate = false := (Bool.or_eq_false_iff.mp h).1
      rw [codePoints, hhigh, Bool.false_and, if_neg Bool.false_ne_true]

/-- Two surrogates in order are one character. -/
theorem codePoints_pair {high low : CodeUnit} (hhigh : high.isHighSurrogate = true)
    (hlow : low.isLowSurrogate = true) (rest : Text) :
    codePoints (high :: low :: rest) = CodeUnit.pairValue high low :: codePoints rest := by
  rw [codePoints, hhigh, hlow, Bool.and_self, if_pos rfl]

/-- A character of one unit is written as that unit. -/
theorem ofCodePoint_unit (u : CodeUnit) : ofCodePoint u.toNat = [u] := by
  rw [ofCodePoint, if_pos u.toNat_lt, UInt16.ofNat_toNat]

/-- A character of two surrogates is written as these. -/
theorem ofCodePoint_pair {high low : CodeUnit} (hhigh : high.isHighSurrogate = true)
    (hlow : low.isLowSurrogate = true) :
    ofCodePoint (CodeUnit.pairValue high low) = [high, low] := by
  rw [CodeUnit.isHighSurrogate_iff] at hhigh
  rw [CodeUnit.isLowSurrogate_iff] at hlow
  have hfirst : 0xD800 + (CodeUnit.pairValue high low - 0x10000) / 0x400 = high.toNat := by
    unfold CodeUnit.pairValue
    omega
  have hsecond : 0xDC00 + (CodeUnit.pairValue high low - 0x10000) % 0x400 = low.toNat := by
    unfold CodeUnit.pairValue
    omega
  rw [ofCodePoint, if_neg (by unfold CodeUnit.pairValue; omega), hfirst, hsecond,
    UInt16.ofNat_toNat, UInt16.ofNat_toNat]

/-- Characters are decoded from their own bytes, one after the other. -/
theorem decodeFrom_codePoints {points : List Nat} (h : ∀ n ∈ points, Scalar n) :
    ofUtf8 (points.flatMap (fun n => encodeCodePoint (if 0xD800 ≤ n && n ≤ 0xDFFF then 0xFFFD else n)))
      = points.flatMap ofCodePoint := by
  induction points with
  | nil => rfl
  | cons n points ih =>
      obtain ⟨hn, hpoints⟩ := List.forall_mem_cons.mp h
      have hscalar : ¬ (0xD800 ≤ n && n ≤ 0xDFFF) = true := by
        rw [Scalar] at hn
        simp only [Bool.and_eq_true, decide_eq_true_eq]
        omega
      rw [List.flatMap_cons, List.flatMap_cons, if_neg hscalar, ofUtf8, decodeFrom_encode hn]
      exact congrArg _ (ih hpoints)

/-- The characters of a well-formed text are no surrogates. -/
theorem WellFormed.scalar {t : Text} (h : WellFormed t) : ∀ n ∈ t.codePoints, Scalar n := by
  induction h with
  | nil => exact fun _ hn => nomatch hn
  | @unit u rest hu _ ih =>
      rw [codePoints_unit hu]
      rw [CodeUnit.isSurrogate_eq_false_iff] at hu
      have hlt := u.toNat_lt
      refine List.forall_mem_cons.mpr ⟨?_, ih⟩
      rw [Scalar]
      omega
  | @pair high low rest hhigh hlow _ ih =>
      rw [codePoints_pair hhigh hlow]
      rw [CodeUnit.isHighSurrogate_iff] at hhigh
      rw [CodeUnit.isLowSurrogate_iff] at hlow
      refine List.forall_mem_cons.mpr ⟨?_, ih⟩
      unfold Scalar CodeUnit.pairValue
      omega

/-- A well-formed text is written by its characters. -/
theorem WellFormed.flatMap_codePoints {t : Text} (h : WellFormed t) :
    t.codePoints.flatMap ofCodePoint = t := by
  induction h with
  | nil => rfl
  | unit hu _ ih => rw [codePoints_unit hu, List.flatMap_cons, ofCodePoint_unit, ih]; rfl
  | pair hhigh hlow _ ih =>
      rw [codePoints_pair hhigh hlow, List.flatMap_cons, ofCodePoint_pair hhigh hlow, ih]
      rfl

/-- A text in which no surrogate stands alone is read back from its bytes. -/
theorem ofUtf8_toUtf8 {t : Text} (h : WellFormed t) : ofUtf8 t.toUtf8 = t := by
  rw [toUtf8, decodeFrom_codePoints h.scalar, h.flatMap_codePoints]

end Text

end Formulary
