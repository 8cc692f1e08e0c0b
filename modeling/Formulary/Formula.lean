import Formulary.Evaluation
import Formulary.Grammar.Production
import Formulary.Token.Scan

/-!
# Formulas

A formula is a text together with its tree and the inputs that a caller has to supply. Its random
nodes are bound to the provider that it was read with, which serves wherever an evaluation names no
other.

- `Formula.parse` reads a text, `Formula.parseWithin` does so under any limit of nesting and
  `Formula.parseAt` from any level.
- `Formula.evaluateIn` evaluates in a context that the caller owns, and `Formula.evaluate` in a new
  one made of bindings.
-/

namespace Formulary

/-- A formula. -/
structure Formula where
  /-- The text that it was read from. -/
  source : Text
  /-- Its tree. -/
  root : Node
  /-- The names that a caller has to supply, in order of their first use. -/
  requiredInputs : List Text

namespace Formula

/-- The position of a token, or the end of the text. -/
def positionOf (source : Text) (tokens : List PlacedToken) (index : Nat) : Nat :=
  match tokens[index]? with
  | some token => token.position
  | none => source.length

/-- The formula of a text whose statements nest into a level, or what is wrong with the text. A text
without statements is the constant zero. -/
def parseAt (level : Level) (source : Text) : Except ParseError Formula := do
  let tokens ← tokenize source
  match level.readProgram (tokens.map (·.toToken)) with
  | .ok (nodes, scope) =>
    return { source, root := Grammar.collapse (.constant 0) nodes, requiredInputs := scope.inputs }
  | .error e =>
    .error { fault := e.fault, source, position := positionOf source tokens e.index }

/-- The formula that a text writes, bound to a provider and with at most `limit` nested productions,
or what is wrong with the text. -/
def parseWithin (provider : ProviderId) (limit : Nat) (source : Text) : Except ParseError Formula :=
  parseAt (.ofBudget provider limit limit) source

/-- The formula that a text writes, bound to a provider, or what is wrong with the text. -/
def parse (provider : ProviderId) (source : Text) : Except ParseError Formula :=
  parseWithin provider nestingLimit source

variable {σ : Type} [RandomProvider σ]

/-- The evaluation in a context that the caller owns. -/
def evaluateIn (f : Formula) (context : Context) (sources : Sources σ) : Run σ :=
  f.root.run context sources

/-- The evaluation in a new context of some bindings. -/
def evaluate (f : Formula) (bindings : Bindings) (sources : Sources σ) : Run σ :=
  f.evaluateIn (Context.ofBindings bindings) sources

end Formula

end Formulary
