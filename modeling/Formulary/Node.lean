import Formulary.Builtin
import Formulary.Random.Provider

/-!
# Trees of formulas

One type holds statements and expressions alike; which of them the grammar puts where is a fact
about the grammar. Every node has a value, and a declaration or an assignment also writes a name. A
random node holds the provider that it was bound to when its text was read.

- `ArithmeticOp.apply` and `ComparisonOp.holds` are the meanings of the operators.
- `Node.children` are the trees right below a node. They are smaller than the node, which is what
  recursion along them rests on.
-/

namespace Formulary

/-- An operator on two values. -/
inductive ArithmeticOp where
  | add
  | subtract
  | multiply
  | divide
  | power
  | remainder
  deriving DecidableEq, Repr

/-- The result of an operator. -/
def ArithmeticOp.apply : ArithmeticOp → Number → Number → Number
  | .add, x, y => x + y
  | .subtract, x, y => x - y
  | .multiply, x, y => x * y
  | .divide, x, y => x / y
  | .power, x, y => x.power y
  | .remainder, x, y => x.remainder y

/-- A comparison of two values. -/
inductive ComparisonOp where
  | less
  | lessEqual
  | greater
  | greaterEqual
  | equal
  | notEqual
  deriving DecidableEq, Repr

/-- How near two values are that count as equal. -/
def equalityTolerance : Number := 1e-4

/-- Whether a comparison holds; equality allows for a tolerance, and no number is neither equal
nor unequal to anything. -/
def ComparisonOp.holds : ComparisonOp → Number → Number → Bool
  | .less, x, y => x < y
  | .lessEqual, x, y => x <= y
  | .greater, x, y => x > y
  | .greaterEqual, x, y => x >= y
  | .equal, x, y => (x - y).abs < equalityTolerance
  | .notEqual, x, y => (x - y).abs >= equalityTolerance

/-- A connective of two conditions. -/
inductive LogicalOp where
  | and
  | or
  deriving DecidableEq, Repr

/-- How an assignment combines the present value with the assigned one. -/
inductive AssignmentOp where
  | set
  | add
  | subtract
  | multiply
  | divide
  deriving DecidableEq, Repr

/-- The operator behind a combining assignment. -/
def AssignmentOp.arithmetic? : AssignmentOp → Option ArithmeticOp
  | .set => none
  | .add => some .add
  | .subtract => some .subtract
  | .multiply => some .multiply
  | .divide => some .divide

/-- A tree. -/
inductive Node where
  /-- A number. -/
  | constant (value : Number)
  /-- The value of a name. -/
  | read (name : Text)
  /-- The value with its sign changed. -/
  | negate (operand : Node)
  /-- Whether the operand is false. -/
  | not (operand : Node)
  /-- An operator on two values. -/
  | arithmetic (op : ArithmeticOp) (left right : Node)
  /-- A comparison. -/
  | comparison (op : ComparisonOp) (left right : Node)
  /-- A connective, whose right side counts only if the left one does not decide. -/
  | logical (op : LogicalOp) (left right : Node)
  /-- A choice between two values. -/
  | choice (condition whenTrue whenFalse : Node)
  /-- A statement run on a condition. -/
  | ifThen (condition body : Node)
  /-- One of two statements run on a condition. -/
  | ifElse (condition body otherwise : Node)
  /-- A name declared with the value zero. -/
  | declare (name : Text)
  /-- A name declared with a value. -/
  | declareAs (name : Text) (initializer : Node)
  /-- A value assigned to a name. -/
  | assign (op : AssignmentOp) (name : Text) (value : Node)
  /-- Statements run in turn. -/
  | sequence (statements : List Node)
  /-- A block without statements. -/
  | empty
  /-- A call of a function of one value. -/
  | mathCall (function : MathFunction) (argument : Node)
  /-- A call of a function of several values. -/
  | multiCall (function : MultiFunction) (arguments : List Node)
  /-- A fraction drawn from the provider. -/
  | randomValue (provider : ProviderId)
  /-- An integer drawn below a bound. -/
  | randomInteger (provider : ProviderId) (bound : Node)
  /-- A value drawn below a bound. -/
  | randomBelow (provider : ProviderId) (bound : Node)

namespace Node

/-- The trees right below a node, in the order of the text. -/
def children : Node → List Node
  | .constant _ => []
  | .read _ => []
  | .negate operand => [operand]
  | .not operand => [operand]
  | .arithmetic _ left right => [left, right]
  | .comparison _ left right => [left, right]
  | .logical _ left right => [left, right]
  | .choice condition whenTrue whenFalse => [condition, whenTrue, whenFalse]
  | .ifThen condition body => [condition, body]
  | .ifElse condition body otherwise => [condition, body, otherwise]
  | .declare _ => []
  | .declareAs _ initializer => [initializer]
  | .assign _ _ value => [value]
  | .sequence statements => statements
  | .empty => []
  | .mathCall _ argument => [argument]
  | .multiCall _ arguments => arguments
  | .randomValue _ => []
  | .randomInteger _ bound => [bound]
  | .randomBelow _ bound => [bound]

/-- The trees right below a node are smaller than the node. -/
theorem sizeOf_lt_of_mem_children {child node : Node} (h : child ∈ node.children) :
    sizeOf child < sizeOf node := by
  cases node with
  | constant | read | declare | empty | randomValue => cases h
  | sequence statements | multiCall _ statements =>
      have := List.sizeOf_lt_of_mem (show child ∈ statements from h)
      simp only [sequence.sizeOf_spec, multiCall.sizeOf_spec]
      omega
  | _ =>
      simp only [children, List.mem_cons, List.not_mem_nil, or_false] at h
      rcases h with rfl | rfl | rfl <;> simp +arith

end Node

end Formulary
