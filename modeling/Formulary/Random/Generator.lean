import Formulary.Number.Dyadic
import Formulary.Text.Basic

/-!
# A seeded generator

The generator's state is one 32-bit word. Each draw adds a fixed odd number to it and scrambles the
sum into the word that is drawn, so the states repeat only after all 2^32 words.

- `Generator.ofSeed` starts from the integer part of a seed modulo 2^32.
- `Generator.draw` is the one step; `Generator.drawFraction` and `Generator.drawBelow` turn the
  word into a value from zero up to one or a bound.
- `Generator.spread` maps a word to an integer between two bounds, with the rounding of every
  step as a parameter; `Generator.drawInteger` is the draw with the rounding of doubles.
-/

namespace Formulary

/-- A generator is its state. -/
structure Generator where
  /-- The state. -/
  state : UInt32
  deriving DecidableEq, Repr

/-- Why no integer can be drawn between two bounds. -/
inductive RangeFault where
  /-- A bound is no integer of magnitude below 2^53. -/
  | unsafeBound
  /-- No integer lies from the lower bound up to the upper one. -/
  | emptyRange (low high : Int)
  deriving DecidableEq, Repr

/-- The wording of a refused range. -/
def RangeFault.message : RangeFault → Text
  | .unsafeBound => "min and max must be safe integers"
  | .emptyRange low high =>
    Text.concat ["min (", Text.ofInt low, ") must be less than max (", Text.ofInt high, ")"]

namespace Generator

/-- What each draw adds to the state. -/
def increment : UInt32 := 0x6d2b79f5

/-- The word that a state gives. -/
def scramble (state : UInt32) : UInt32 :=
  let a := (state ^^^ (state >>> 15)) * (1 ||| state)
  let b := (a + (a ^^^ (a >>> 7)) * (61 ||| a)) ^^^ a
  b ^^^ (b >>> 14)

/-- The generator that starts from a seed. -/
def ofSeed (seed : Number) : Generator := ⟨seed.toWord⟩

/-- The state behind a draw. -/
def advance (g : Generator) : Generator := ⟨g.state + increment⟩

/-- One draw: a word and the generator behind it. -/
def draw (g : Generator) : UInt32 × Generator := (scramble g.advance.state, g.advance)

/-- A word as a fraction of 2^32. -/
def fraction (word : UInt32) : Number := word.toFloat / 4294967296

/-- A draw from zero up to one. -/
def drawFraction (g : Generator) : Number × Generator :=
  let (word, next) := g.draw
  (fraction word, next)

/-- A draw from zero up to a bound. -/
def drawBelow (g : Generator) (bound : Number) : Number × Generator :=
  let (word, next) := g.draw
  (fraction word * bound, next)

/-- The integer of a word between two bounds, where `round` is applied to the exact result of
every operation. -/
def spread (round : Rat → Rat) (word : UInt32) (low high : Int) : Rat :=
  let width := round (high - low : Int)
  let share := round ((word.toNat : Rat) / Rat.pow 2 32 * width)
  round (low + share.floor : Int)

/-- An integer of magnitude below 2^53. -/
def isSafe (n : Int) : Bool := -Number.maxSafeInteger ≤ n && n ≤ Number.maxSafeInteger

/-- A draw of an integer from `low` up to `high`; a refused range draws nothing. -/
def drawIntegerWith (round : Rat → Rat) (g : Generator) (low high : Int) :
    Except RangeFault (Rat × Generator) :=
  if isSafe low && isSafe high then
    if low < high then
      let (word, next) := g.draw
      .ok (spread round word low high, next)
    else .error (.emptyRange low high)
  else .error .unsafeBound

/-- A draw of an integer in the arithmetic of doubles. -/
def drawInteger (g : Generator) (low high : Int) : Except RangeFault (Number × Generator) := do
  let (value, next) ← g.drawIntegerWith Rounding.toDouble low high
  return (Float.ofInt value.num / Float.ofNat value.den, next)

/-- A draw of an integer between two values, which must be integers themselves. -/
def drawBetween (g : Generator) (low high : Number) : Except RangeFault (Number × Generator) :=
  match low.toSafeInteger?, high.toSafeInteger? with
  | some a, some b => g.drawInteger a b
  | _, _ => .error .unsafeBound

end Generator

end Formulary
