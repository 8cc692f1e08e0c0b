import Formulary.Number.Arithmetic
import Formulary.Number.Literal

/-!
# The shortest decimal of a double

A double is written with the fewest digits that read back as the same double; of several decimals
with as many digits, the nearest one is taken.

- `Shortest.decimal` finds the decimal of a positive double by exact arithmetic: for each number of
  digits it tries the two neighbours of the value among the decimals with so many digits.
- `Number.text` lays it out: positional from 10^-6 up to 10^21, and with an exponent elsewhere.
-/

namespace Formulary

namespace Shortest

/-- The values that read as a positive double lie between these two; the ends are among them if the
significand is even. -/
structure Interval where
  /-- The lower end. -/
  low : Rat
  /-- The upper end. -/
  high : Rat
  /-- Whether the ends belong to it. -/
  closed : Bool

/-- Whether a value lies in an interval. -/
def Interval.contains (i : Interval) (x : Rat) : Bool :=
  if i.closed then i.low ≤ x && x ≤ i.high else i.low < x && x < i.high

/-- The exact value of a positive double. -/
def value (d : Dyadic) : Rat := d.significand * (2 : Rat) ^ d.exponent

/-- The values that read as a positive double. Below a power of two the doubles stand twice as
close. -/
def interval (d : Dyadic) : Interval :=
  let gap := (2 : Rat) ^ d.exponent
  let gapBelow := if d.significand = Nat.pow 2 52 ∧ d.exponent ≠ -1074 then gap / 2 else gap
  { low := value d - gapBelow / 2, high := value d + gap / 2, closed := d.significand % 2 == 0 }

/-- The exponent of the greatest power of ten up to a positive value. -/
def decimalOrder (x : Rat) : Int :=
  let guess := Int.fdiv (Rounding.binaryOrder x * 30103) 100000
  if (10 : Rat) ^ (guess + 1) ≤ x then guess + 1
  else if x < (10 : Rat) ^ guess then guess - 1
  else guess

/-- The nearest decimal with digits down to 10^`scale` that reads as the double. -/
def onGrid? (d : Dyadic) (scale : Int) : Option Nat :=
  let step := (10 : Rat) ^ scale
  let exact := value d / step
  let below := exact.floor.toNat
  let lowFits := (interval d).contains (below * step)
  let highFits := (interval d).contains ((below + 1) * step)
  if lowFits && highFits then some (if exact - below ≤ 1 / 2 then below else below + 1)
  else if lowFits then some below
  else if highFits then some (below + 1)
  else none

/-- The first fitting decimal, where one digit more is tried each time. -/
def search (d : Dyadic) : (tries : Nat) → (scale : Int) → Decimal
  | 0, scale => ⟨false, (value d / (10 : Rat) ^ scale).floor.toNat, scale⟩
  | tries + 1, scale =>
    match onGrid? d scale with
    | some digits => ⟨false, digits, scale⟩
    | none => search d tries (scale - 1)

/-- The shortest decimal of a positive double. -/
def decimal (d : Dyadic) : Decimal := search d 17 (decimalOrder (value d))

end Shortest

namespace Number

/-- The layout of a decimal with digits `digits` and its point behind the digit at `point`. -/
def layout (digits : List Char) (point : Int) : List Char :=
  let count : Int := digits.length
  if count ≤ point && point ≤ 21 then digits ++ List.replicate (point - count).toNat '0'
  else if 0 < point && point ≤ 21 then
    digits.take point.toNat ++ ['.'] ++ digits.drop point.toNat
  else if -6 < point && point ≤ 0 then ['0', '.'] ++ List.replicate (-point).toNat '0' ++ digits
  else
    let fraction := digits.drop 1
    let exponent := point - 1
    digits.take 1 ++ (if fraction.isEmpty then [] else '.' :: fraction) ++ ['e']
      ++ [if exponent < 0 then '-' else '+'] ++ Nat.toDigits 10 exponent.natAbs

/-- A decimal without zeros at its end, laid out. -/
def decimalText (d : Decimal) : List Char :=
  let all := Nat.toDigits 10 d.digits
  let digits := (all.reverse.dropWhile (· == '0')).reverse
  layout digits ((all.length : Int) + d.exponent)

/-- The text of a double: the shortest decimal that reads back. Zero has no sign. -/
def text (x : Number) : Text :=
  if x.isNaN then "NaN"
  else
    let magnitude : Text :=
      match Dyadic.ofFloat? x with
      | none => "Infinity"
      | some d =>
        if d.significand = 0 then "0"
        else Text.ofChars (decimalText (Shortest.decimal { d with negative := false }))
    if x < 0 then CodeUnit.ofChar '-' :: magnitude else magnitude

end Number

end Formulary
