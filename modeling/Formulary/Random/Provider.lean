import Formulary.Number.Arithmetic
import Formulary.Random.Generator

/-!
# Providers of randomness

A provider answers three kinds of requests and changes its own state with every answer. What is a
provider is an open set, hence a class.

- `Generator` replays the same answers for the same seed, `FixedFraction` answers with one fraction
  for ever, and `Entropy` is what serves when no provider is given.
- `ProviderId` is how formulas and callers refer to a provider, so that several of them can share one
  and see each other's draws.
- `Sources` holds the states of all providers and the one that may stand in for the others during one
  evaluation; `Sources.answer` asks whichever is in force.
-/

namespace Formulary

/-- A request to a provider. -/
inductive Draw where
  /-- A value from zero up to one. -/
  | fraction
  /-- A value from zero up to a bound. -/
  | below (bound : Number)
  /-- An integer from zero up to a bound. -/
  | integerBelow (bound : Number)

/-- Providers with states of type `σ`. -/
class RandomProvider (σ : Type) where
  /-- The answer to a request and the state behind it. -/
  answer : σ → Draw → Number × σ

/-- The integer part of a bound, if integers can be drawn below it. -/
def Draw.positiveBound? (bound : Number) : Option Int :=
  match bound.integerPart? with
  | none => none
  | some n => if 0 < n && n ≤ Number.maxSafeInteger then some n else none

/-! ## The seeded provider -/

namespace Generator

/-- The answer of a seeded provider, or why the range of a draw is refused; a bound below which no
integer can be drawn gives zero and draws nothing. -/
def answer? (g : Generator) : Draw → Except RangeFault (Number × Generator)
  | .fraction => .ok g.drawFraction
  | .below bound => .ok (g.drawBelow bound)
  | .integerBelow bound =>
    match Draw.positiveBound? bound with
    | none => .ok (0, g)
    | some n => g.drawInteger 0 n

/-- The answer of a seeded provider. -/
def answer (g : Generator) (request : Draw) : Number × Generator :=
  match g.answer? request with
  | .ok drawn => drawn
  | .error _ => (0, g)

instance : RandomProvider Generator := ⟨answer⟩

end Generator

/-! ## The fixed provider -/

/-- A provider that answers with one fraction of every bound. -/
structure FixedFraction where
  /-- The fraction. -/
  value : Number

namespace FixedFraction

/-- One half. -/
def half : FixedFraction := ⟨0.5⟩

/-- The answer of a fixed provider. -/
def answer (p : FixedFraction) : Draw → Number × FixedFraction
  | .fraction => (p.value, p)
  | .below bound => (p.value * bound, p)
  | .integerBelow bound => ((p.value * bound.truncate).truncate, p)

instance : RandomProvider FixedFraction := ⟨answer⟩

end FixedFraction

/-! ## The provider in default of another -/

/-- A provider whose answers nobody relies on. It stands for whatever source of chance the program
runs beside, which gives fractions from zero up to one and nothing else to go by; the words that are
drawn here are one choice of such fractions. -/
structure Entropy where
  /-- The state. -/
  state : UInt64

namespace Entropy

/-- The provider at the start. -/
def initial : Entropy := ⟨0⟩

/-- The word that a state gives. -/
def scramble (state : UInt64) : UInt64 :=
  let a := (state ^^^ (state >>> 30)) * 0xBF58476D1CE4E5B9
  let b := (a ^^^ (a >>> 27)) * 0x94D049BB133111EB
  b ^^^ (b >>> 31)

/-- A draw from zero up to one, with 53 random bits. -/
def drawFraction (p : Entropy) : Number × Entropy :=
  let next := p.state + 0x9E3779B97F4A7C15
  ((scramble next >>> 11).toFloat / 9007199254740992, ⟨next⟩)

/-- The answer of the provider. -/
def answer (p : Entropy) : Draw → Number × Entropy
  | .fraction => p.drawFraction
  | .below bound =>
    let (x, next) := p.drawFraction
    (x * bound, next)
  | .integerBelow bound =>
    match Draw.positiveBound? bound with
    | none => (0, p)
    | some n =>
      let (x, next) := p.drawFraction
      ((x * Float.ofInt n).floor, next)

instance : RandomProvider Entropy := ⟨answer⟩

end Entropy

/-! ## The provider in force -/

/-- What a provider is called by; its state is kept elsewhere. -/
structure ProviderId where
  /-- The number of the provider. -/
  index : Nat
  deriving DecidableEq, Repr

/-- A request and the provider that it went to. -/
structure Call where
  /-- The provider that was asked. -/
  provider : ProviderId
  /-- What it was asked for. -/
  draw : Draw

/-- The states of all providers, and the provider that stands in for the others, if any. -/
structure Sources (σ : Type) where
  /-- The present state of each provider. -/
  states : ProviderId → σ
  /-- The provider that stands in for the others during one evaluation. -/
  substitute : Option ProviderId

namespace Sources

variable {σ : Type} [RandomProvider σ]

/-- The providers with none standing in for the others. -/
def own {σ : Type} (states : ProviderId → σ) : Sources σ := ⟨states, none⟩

/-- The provider in force where a formula is bound to one. -/
def asked {σ : Type} (s : Sources σ) (bound : ProviderId) : ProviderId := s.substitute.getD bound

/-- The answer of the provider in force; all others keep their states. -/
def answer (s : Sources σ) (bound : ProviderId) (draw : Draw) : Number × Sources σ :=
  let id := s.asked bound
  let (x, state) := RandomProvider.answer (s.states id) draw
  (x, { s with states := fun other => if other = id then state else s.states other })

end Sources

end Formulary
