import Formulary.Number.Dyadic
import Formulary.Text.Basic

/-!
# Decimal numbers

A decimal number is an integer times a power of ten. Reading one gives the nearest double.

- `Decimal.toNumber` rounds a decimal to the nearest double.
- `Number.ofNumeral` reads digits with at most one point.
-/

namespace Formulary

/-- An integer, given by sign and magnitude, times a power of ten. -/
structure Decimal where
  /-- Whether a minus sign is written. -/
  negative : Bool
  /-- The magnitude of the integer. -/
  digits : Nat
  /-- The exponent of ten. -/
  exponent : Int
  deriving DecidableEq, Repr

namespace Decimal

/-- The exponent above which a decimal is beyond every double, and below whose negative it is
nearer to zero than to any other double, once the digits are counted in. -/
def exponentBound : Int := 400

/-- The nearest double. -/
def toNumber (d : Decimal) : Number :=
  let size : Int := (Nat.toDigits 10 d.digits).length
  let magnitude : Number :=
    if d.digits = 0 then 0
    else if d.exponent + size > exponentBound then 1.0 / 0.0
    else if d.exponent + size < -exponentBound then 0
    else match d.exponent with
      | .ofNat e => Float.ofScientific d.digits false e
      | .negSucc e => Float.ofScientific d.digits true (e + 1)
  if d.negative then -magnitude else magnitude

/-- Digits around at most one point, as a decimal. -/
def ofNumeral (numeral : Text) : Decimal :=
  let whole := numeral.takeWhile CodeUnit.isDigit
  let fraction := (numeral.dropWhile CodeUnit.isDigit).drop 1
  { negative := false, digits := Text.decimalValue (whole ++ fraction),
    exponent := -(fraction.length : Int) }

end Decimal

/-- The double that digits around at most one point write. -/
def Number.ofNumeral (numeral : Text) : Number := (Decimal.ofNumeral numeral).toNumber

end Formulary
