import Formulary.Number.Dyadic

/-!
# Arithmetic on doubles

The operations of the language that the machine's arithmetic does not give directly.

- `Number.remainder` is the exact remainder with the sign of the dividend.
- `Number.power` is the machine's power except that no number in the exponent, and a base of
  magnitude one under an infinite exponent, give no number.
- `Number.least` and `Number.greatest` order negative zero below zero and let no number win.
- `Number.roundHalfEven`, `Number.clamp`, `Number.clampUnit` and `Number.blend` round, bound and
  mix values.
-/

namespace Formulary

namespace Number

/-- No number. -/
def nan : Number := 0.0 / 0.0

/-- The sign bit. -/
def isNegative (x : Number) : Bool := Nat.pow 2 63 ≤ x.toBits.toNat

/-- Zero counts as false and all else as true, no number included. -/
def isTruthy (x : Number) : Bool := !(x == 0)

/-- One for true and zero for false. -/
def ofBool (b : Bool) : Number := if b then 1 else 0

/-- The value without its fraction; the sign of zero is kept. -/
def truncate (x : Number) : Number := if x < 0 then x.ceil else x.floor

/-- The remainder of two dyadic values, with the sign of the first. -/
def dyadicRemainder (a b : Dyadic) : Dyadic :=
  let exponent := min a.exponent b.exponent
  let dividend := a.significand <<< (a.exponent - exponent).toNat
  let divisor := b.significand <<< (b.exponent - exponent).toNat
  ⟨a.negative, dividend % divisor, exponent⟩

/-- The exact remainder of a division toward zero, with the sign of the dividend. No number if the
dividend is infinite or the divisor zero; the dividend itself if the divisor is infinite. -/
def remainder (x y : Number) : Number :=
  match Dyadic.ofFloat? x, Dyadic.ofFloat? y with
  | none, _ => nan
  | some _, none => if y.isNaN then nan else x
  | some a, some b => if b.significand = 0 then nan else (dyadicRemainder a b).toFloat

/-- The power of a base. -/
def power (base exponent : Number) : Number :=
  if exponent.isNaN || (exponent.isInf && base.abs == 1) then nan
  else Float.pow base exponent

/-- The lesser of two values; negative zero is below zero, and no number wins. -/
def least (x y : Number) : Number :=
  if x.isNaN || y.isNaN then nan
  else if x < y then x
  else if y < x then y
  else if isNegative x then x
  else y

/-- The greater of two values; zero is above negative zero, and no number wins. -/
def greatest (x y : Number) : Number :=
  if x.isNaN || y.isNaN then nan
  else if x < y then y
  else if y < x then x
  else if isNegative x then y
  else x

/-- The nearest integer; a half goes to the even neighbour. -/
def roundHalfEven (x : Number) : Number :=
  if !x.isFinite then x
  else
    let below := x.floor
    let difference := x - below
    if difference < 0.5 then below
    else if difference > 0.5 then below + 1
    else if remainder below 2 == 0 then below
    else below + 1

/-- The value moved between two bounds; the lower bound is looked at first. -/
def clamp (x low high : Number) : Number :=
  if x < low then low else if x > high then high else x

/-- The value moved between zero and one. -/
def clampUnit (x : Number) : Number := clamp x 0 1

/-- The value between `a` and `b` at the fraction `t`, moved between zero and one. -/
def blend (a b t : Number) : Number := a + (b - a) * clampUnit t

/-- One from zero upward and minus one for all else. -/
def sign (x : Number) : Number := if x >= 0 then 1 else -1

end Number

end Formulary
