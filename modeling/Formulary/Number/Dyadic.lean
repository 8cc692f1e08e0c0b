/-!
# Doubles taken apart and exact values rounded

The values of the language are IEEE 754 doubles. A finite double is an integer times a power of
two, and here it is taken apart into the two and put together again, so that operations on it can
be done in exact integer arithmetic. The other way, an exact value is rounded to the nearest one with
53 significant bits, a tie going to the even neighbour: what one operation on doubles does to its
exact result while that neither overflows nor comes near the least double.

- `Dyadic.ofFloat?` takes a finite double apart; `Dyadic.toFloat` puts one together.
- `Number.integerPart?` drops the fraction, `Number.toSafeInteger?` accepts only integers below
  2^53, and `Number.toWord` keeps the integer part modulo 2^32.
- `Rounding.nearestEven` rounds to an integer, `Rounding.toSignificandBits` to a number of
  significant bits and `Rounding.toDouble` to those of a double.
-/

namespace Formulary

/-- A value of the language. -/
abbrev Number := Float

/-- An integer, given by sign and magnitude, times a power of two. -/
structure Dyadic where
  /-- Whether the sign is set; zero has a sign too. -/
  negative : Bool
  /-- The magnitude of the integer. -/
  significand : Nat
  /-- The exponent of two. -/
  exponent : Int
  deriving DecidableEq, Repr

namespace Dyadic

/-- A finite double taken apart; none for an infinity or no number. -/
def ofFloat? (x : Number) : Option Dyadic :=
  let bits : Nat := x.toBits.toNat
  let negative : Bool := Nat.pow 2 63 ≤ bits
  let biased : Nat := bits / Nat.pow 2 52 % Nat.pow 2 11
  let fraction : Nat := bits % Nat.pow 2 52
  if biased = Nat.pow 2 11 - 1 then none
  else if biased = 0 then some ⟨negative, fraction, -1074⟩
  else some ⟨negative, Nat.pow 2 52 + fraction, (biased : Int) - 1075⟩

/-- The double of this value, where its significand has at most 53 bits up to trailing zeros. -/
def toFloat (d : Dyadic) : Number :=
  let excess := d.significand.log2 - 52
  let magnitude := (Float.ofNat (d.significand >>> excess)).scaleB (d.exponent + excess)
  if d.negative then -magnitude else magnitude

/-- The magnitude without its fraction. -/
def wholeMagnitude (d : Dyadic) : Nat :=
  match d.exponent with
  | .ofNat e => d.significand <<< e
  | .negSucc e => d.significand >>> (e + 1)

/-- The value without its fraction. -/
def whole (d : Dyadic) : Int :=
  if d.negative then -(d.wholeMagnitude : Int) else d.wholeMagnitude

/-- Whether the value has no fraction. -/
def isWhole (d : Dyadic) : Bool :=
  match d.exponent with
  | .ofNat _ => true
  | .negSucc e => d.significand % Nat.pow 2 (e + 1) == 0

end Dyadic

namespace Number

/-- The greatest integer below which every integer is a double. -/
def maxSafeInteger : Int := Int.pow 2 53 - 1

/-- The integer part of a finite double, toward zero. -/
def integerPart? (x : Number) : Option Int := (Dyadic.ofFloat? x).map Dyadic.whole

/-- A double that is an integer of magnitude below 2^53. -/
def toSafeInteger? (x : Number) : Option Int :=
  match Dyadic.ofFloat? x with
  | none => none
  | some d =>
    if d.isWhole && d.wholeMagnitude ≤ maxSafeInteger.toNat then some d.whole else none

/-- The integer part modulo 2^32; zero for an infinity or no number. -/
def toWord (x : Number) : UInt32 :=
  match integerPart? x with
  | none => 0
  | some n => UInt32.ofNat (n % Int.pow 2 32).toNat

end Number

/-! ## Rounding -/

namespace Rounding

/-- The nearest integer, the even one of two at the same distance. -/
def nearestEven (x : Rat) : Int :=
  let below := x.floor
  let difference := x - below
  if difference < 1 / 2 then below
  else if 1 / 2 < difference then below + 1
  else if below % 2 = 0 then below
  else below + 1

/-- The exponent of the greatest power of two up to a positive value. -/
def binaryOrder (x : Rat) : Int :=
  let guess : Int := (x.num.natAbs.log2 : Int) - x.den.log2
  if (2 : Rat) ^ guess ≤ x then guess else guess - 1

/-- The nearest value with some number of significant bits. -/
def toSignificandBits (bits : Nat) (x : Rat) : Rat :=
  if x = 0 then 0
  else
    let unit := (2 : Rat) ^ (binaryOrder x.abs - (bits - 1 : Int))
    nearestEven (x / unit) * unit

/-- The nearest value with the significant bits of a double. -/
def toDouble (x : Rat) : Rat := toSignificandBits 53 x

end Rounding

end Formulary
