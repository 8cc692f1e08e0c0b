import Formulary.Number.Arithmetic
import Formulary.Source.Fault

/-!
# The functions of the language

Two closed families: functions of one value, and functions of several. A third, the draws from a
provider of randomness, has a meaning only during an evaluation and is listed by name here.

- `MathFunction.apply` and `MultiFunction.apply` are the meanings; a function of several values
  with too few arguments gives the first of them.
- `Callee.ofName?` resolves a name, and `Callee.arity` says how many arguments a call takes.
-/

namespace Formulary

/-- A function of one value. -/
inductive MathFunction where
  | sqrt
  | abs
  | floor
  | ceil
  | round
  | sin
  | cos
  | tan
  | log
  | exp
  | clamp01
  | sign
  | negative
  | acos
  | asin
  | atan
  deriving DecidableEq, Repr

namespace MathFunction

/-- Every function of one value. -/
def all : List MathFunction :=
  [.sqrt, .abs, .floor, .ceil, .round, .sin, .cos, .tan, .log, .exp, .clamp01, .sign, .negative,
    .acos, .asin, .atan]

/-- The name that a call writes. -/
def name : MathFunction → Text
  | .sqrt => "sqrt"
  | .abs => "abs"
  | .floor => "floor"
  | .ceil => "ceil"
  | .round => "round"
  | .sin => "sin"
  | .cos => "cos"
  | .tan => "tan"
  | .log => "log"
  | .exp => "exp"
  | .clamp01 => "clamp01"
  | .sign => "sign"
  | .negative => "negative"
  | .acos => "acos"
  | .asin => "asin"
  | .atan => "atan"

/-- The meaning. -/
def apply : MathFunction → Number → Number
  | .sqrt, x => x.sqrt
  | .abs, x => x.abs
  | .floor, x => x.floor
  | .ceil, x => x.ceil
  | .round, x => x.roundHalfEven
  | .sin, x => x.sin
  | .cos, x => x.cos
  | .tan, x => x.tan
  | .log, x => x.log
  | .exp, x => x.exp
  | .clamp01, x => x.clampUnit
  | .sign, x => x.sign
  | .negative, x => -x
  | .acos, x => x.acos
  | .asin, x => x.asin
  | .atan, x => x.atan

/-- The function that bears a name. -/
def ofName? (name : Text) : Option MathFunction := all.find? (fun f => f.name = name)

end MathFunction

/-- A function of several values. -/
inductive MultiFunction where
  | min
  | max
  | clamp
  | lerp
  | pow
  deriving DecidableEq, Repr

namespace MultiFunction

/-- Every function of several values. -/
def all : List MultiFunction := [.min, .max, .clamp, .lerp, .pow]

/-- The name that a call writes. -/
def name : MultiFunction → Text
  | .min => "min"
  | .max => "max"
  | .clamp => "clamp"
  | .lerp => "lerp"
  | .pow => "pow"

/-- How many arguments the function works on. -/
def minArity : MultiFunction → Nat
  | .min => 2
  | .max => 2
  | .clamp => 3
  | .lerp => 3
  | .pow => 2

/-- The meaning: arguments beyond those that the function works on are ignored, and with fewer it
gives the first one, or zero. -/
def apply : MultiFunction → List Number → Number
  | .min, x :: y :: _ => x.least y
  | .max, x :: y :: _ => x.greatest y
  | .pow, x :: y :: _ => x.power y
  | .clamp, x :: y :: z :: _ => x.clamp y z
  | .lerp, x :: y :: z :: _ => x.blend y z
  | _, x :: _ => x
  | _, [] => 0

/-- The function that bears a name. -/
def ofName? (name : Text) : Option MultiFunction := all.find? (fun f => f.name = name)

end MultiFunction

/-- What a name can be called as. -/
inductive Callee where
  /-- A function of one value. -/
  | math (f : MathFunction)
  /-- A function of several values. -/
  | multi (f : MultiFunction)
  /-- A fraction drawn from a provider. -/
  | randomValue
  /-- An integer drawn below a bound. -/
  | randomInteger
  /-- A value drawn below a bound. -/
  | randomBelow
  deriving DecidableEq, Repr

namespace Callee

/-- What a name is called as. -/
def ofName? (name : Text) : Option Callee :=
  match MathFunction.ofName? name with
  | some f => some (.math f)
  | none => match MultiFunction.ofName? name with
    | some f => some (.multi f)
    | none =>
      if name = Text.ofString "random" then some .randomValue
      else if name = Text.ofString "rand" then some .randomInteger
      else if name = Text.ofString "randf" then some .randomBelow
      else none

/-- How many arguments a call takes. -/
def arity : Callee → Arity
  | .math _ => .one
  | .multi _ => .atLeastOne
  | .randomValue => .none
  | .randomInteger => .one
  | .randomBelow => .one

end Callee

end Formulary
