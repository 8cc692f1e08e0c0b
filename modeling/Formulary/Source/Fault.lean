import Formulary.Text.Basic

/-!
# What can be wrong with a formula's text

A `Fault` is the cause of a refusal, without the place where it was found. The wording of each
cause stands in `Fault.reason` and nowhere else; `Fault.kind` sorts the causes.
-/

namespace Formulary

/-- How many arguments a function takes. -/
inductive Arity where
  /-- No argument. -/
  | none
  /-- Exactly one argument. -/
  | one
  /-- One argument or more. -/
  | atLeastOne
  deriving DecidableEq, Repr

/-- The arity as a message names it. -/
def Arity.wording : Arity → Text
  | .none => "no arguments"
  | .one => "1 argument"
  | .atLeastOne => "at least 1 argument"

/-- The sort of a fault. -/
inductive FaultKind where
  | unexpectedCharacter
  | invalidNumber
  | unexpectedToken
  | expectedToken
  | unterminatedParenthesis
  | unterminatedBlock
  | unterminatedTernary
  | unterminatedFunctionCall
  | unknownFunction
  | arityMismatch
  | expressionTooComplex
  deriving DecidableEq, Repr

/-- The cause for which a text is no formula. -/
inductive Fault where
  /-- A unit that starts no token. -/
  | unexpectedCharacter (unit : CodeUnit)
  /-- A run of digits and points that writes no number. -/
  | invalidNumber (digits : Text)
  /-- The text ends where an operand should stand. -/
  | unexpectedEnd
  /-- A token that starts no operand stands where one should. -/
  | unexpectedToken (spelling : Text)
  /-- No name follows the word that declares one. -/
  | missingName
  /-- No parenthesis opens a condition. -/
  | missingCondition
  /-- No parenthesis closes a condition. -/
  | unclosedCondition
  /-- No parenthesis closes a group. -/
  | unclosedGroup
  /-- No brace closes a block. -/
  | unclosedBlock
  /-- A choice between two values has no second value. -/
  | incompleteChoice
  /-- No parenthesis closes a list of arguments. -/
  | unclosedCall
  /-- A call of a name that no function bears. -/
  | unknownFunction (callee : Text)
  /-- A call with a count of arguments that the function does not take. -/
  | wrongArity (callee : Text) (arity : Arity) (given : Nat)
  /-- More productions are nested in each other than the limit allows. -/
  | tooDeep (limit : Nat)
  deriving DecidableEq, Repr

namespace Fault

/-- The sort of a cause. -/
def kind : Fault → FaultKind
  | .unexpectedCharacter _ => .unexpectedCharacter
  | .invalidNumber _ => .invalidNumber
  | .unexpectedEnd => .unexpectedToken
  | .unexpectedToken _ => .unexpectedToken
  | .missingName => .expectedToken
  | .missingCondition => .expectedToken
  | .unclosedCondition => .unterminatedParenthesis
  | .unclosedGroup => .unterminatedParenthesis
  | .unclosedBlock => .unterminatedBlock
  | .incompleteChoice => .unterminatedTernary
  | .unclosedCall => .unterminatedFunctionCall
  | .unknownFunction _ => .unknownFunction
  | .wrongArity _ _ _ => .arityMismatch
  | .tooDeep _ => .expressionTooComplex

/-- The advice that follows a unit which is half of an operator. -/
def advice (unit : CodeUnit) : Text :=
  if unit == CodeUnit.ofChar '&' || unit == CodeUnit.ofChar '|' then
    Text.concat [". Did you mean '", [unit, unit], "'?"]
  else []

/-- The wording of a cause. -/
def reason : Fault → Text
  | .unexpectedCharacter unit => Text.concat ["Unexpected character '", [unit], "'", advice unit]
  | .invalidNumber digits => Text.concat ["Invalid number '", digits, "'"]
  | .unexpectedEnd => "Unexpected end of expression"
  | .unexpectedToken spelling => Text.concat ["Unexpected token '", spelling, "'"]
  | .missingName => "Expected variable name after 'let'"
  | .missingCondition => "Expected '(' after 'if'"
  | .unclosedCondition => "Expected ')' after if condition"
  | .unclosedGroup => "Expected closing parenthesis"
  | .unclosedBlock => "Expected '\x7d'"
  | .incompleteChoice => "Expected ':' in ternary operator"
  | .unclosedCall => "Expected closing parenthesis in function call"
  | .unknownFunction callee => Text.concat ["Unknown function: ", callee]
  | .wrongArity callee arity given =>
    Text.concat ["Function '", callee, "' expects ", arity.wording, ", got ", Text.ofNat given]
  | .tooDeep limit =>
    Text.concat ["Expression nested deeper than ", Text.ofNat limit, " levels"]

end Fault

end Formulary
