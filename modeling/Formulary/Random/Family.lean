import Formulary.Random.Generator

/-!
# Generators and their copies

A generator can be copied at any moment, and from then on it and the copy are drawn from apart. A
family is a generator with its copies and theirs, numbered in the order in which they were made.

- `Generator.respond` is what one generator answers to a request.
- `Family.perform` takes a step with one member of a family, and `Family.after` takes several.
-/

namespace Formulary

/-- What can be asked of a generator. -/
inductive Generator.Request where
  /-- A value from zero up to one. -/
  | fraction
  /-- A value from zero up to a bound. -/
  | below (bound : Number)
  /-- An integer between two bounds. -/
  | between (low high : Number)

/-- The answer to a request and the generator behind it, or why nothing is drawn. -/
def Generator.respond (g : Generator) : Request → Except RangeFault (Number × Generator)
  | .fraction => .ok g.drawFraction
  | .below bound => .ok (g.drawBelow bound)
  | .between low high => g.drawBetween low high

/-- Generators by number. -/
abbrev Family := List Generator

namespace Family

/-- A step with one member of a family. -/
inductive Step where
  /-- A request to the generator of this number. -/
  | draw (number : Nat) (request : Generator.Request)
  /-- A copy of the generator of this number. -/
  | copy (number : Nat)

/-- What comes of a step. -/
inductive Reply where
  /-- A value was drawn. -/
  | value (x : Number)
  /-- Nothing was drawn, since the range was refused. -/
  | refused (fault : RangeFault)
  /-- The copy has this number. -/
  | copied (number : Nat)
  /-- No generator has the number of the step. -/
  | missing

/-- The family of a single generator. -/
def ofSeed (seed : Number) : Family := [Generator.ofSeed seed]

/-- One step. A refused request leaves the generator as it is, and a copy starts from the state that
its generator is in. -/
def perform (family : Family) : Step → Reply × Family
  | .draw number request =>
    match family[number]? with
    | none => (.missing, family)
    | some g =>
      match g.respond request with
      | .ok (x, next) => (.value x, family.set number next)
      | .error fault => (.refused fault, family)
  | .copy number =>
    match family[number]? with
    | none => (.missing, family)
    | some g => (.copied family.length, family ++ [g])

/-- The family behind some steps, taken in turn. -/
def after (family : Family) (steps : List Step) : Family :=
  steps.foldl (fun family step => (family.perform step).2) family

end Family

end Formulary
