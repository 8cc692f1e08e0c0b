import Formulary.Context
import Formulary.Node
import Formulary.Random.Provider

/-!
# Evaluation

A tree is evaluated from left to right against a context. Writes and draws made before a failure
stay made, so the state is handed on in either case.

- `Machine` is the state: the context, the providers and the calls made to them so far.
- `Node.evaluateWith` gives every kind of node its meaning from that of the trees right below it, and
  `Node.evaluate` ties the knot.
- `Node.run` evaluates a tree in a context and gathers what came of it.
-/

namespace Formulary

/-- Why an evaluation stops. -/
inductive EvaluationError where
  /-- A name without a value is read. -/
  | missingVariable (name : Text)
  deriving DecidableEq, Repr

/-- The wording of a failed evaluation. -/
def EvaluationError.message : EvaluationError → Text
  | .missingVariable name => Text.concat ["Variable '", name, "' not found"]

/-- The state of an evaluation. -/
structure Machine (σ : Type) where
  /-- The values of names. -/
  context : Context
  /-- The providers of randomness. -/
  sources : Sources σ
  /-- The calls made to them, in order. -/
  calls : List Call

/-- A step of an evaluation: it changes the state whether it succeeds or fails. -/
abbrev Evaluation (σ : Type) := EStateM EvaluationError (Machine σ)

namespace Evaluation

variable {σ : Type}

/-- The value of a name. -/
def read (name : Text) : Evaluation σ Number := fun m =>
  match m.context.get? name with
  | some value => .ok value m
  | none => .error (.missingVariable name) m

/-- The value of a name, or zero. -/
def readOrZero (name : Text) : Evaluation σ Number := fun m =>
  .ok ((m.context.get? name).getD 0) m

/-- A value written to a name; the value is also the result. -/
def write (name : Text) (value : Number) : Evaluation σ Number := fun m =>
  .ok value { m with context := m.context.insert name value }

/-- A draw from the provider in force where a node is bound to one. -/
def draw [RandomProvider σ] (bound : ProviderId) (request : Draw) : Evaluation σ Number := fun m =>
  let (value, sources) := m.sources.answer bound request
  .ok value { m with sources, calls := m.calls ++ [⟨m.sources.asked bound, request⟩] }

/-- A value assigned to a name: combined with the present value, or zero, where the operator
combines. -/
def assign (op : AssignmentOp) (name : Text) (value : Number) : Evaluation σ Number :=
  match op.arithmetic? with
  | none => write name value
  | some arithmetic => do
    let present ← readOrZero name
    write name (arithmetic.apply present value)

end Evaluation

section Nodes

variable {σ : Type} [RandomProvider σ]

/-- The value of a node, where `next` evaluates the trees right below it. -/
def Node.evaluateWith (node : Node)
    (next : (child : Node) → (below : child ∈ node.children := by simp [children]) →
      Evaluation σ Number) :
    Evaluation σ Number :=
  match node with
  | .constant value => pure value
  | .read name => Evaluation.read name
  | .negate operand => do
    let x ← next operand
    return -x
  | .not operand => do
    let x ← next operand
    return Number.ofBool (!x.isTruthy)
  | .arithmetic op left right => do
    let x ← next left
    let y ← next right
    return op.apply x y
  | .comparison op left right => do
    let x ← next left
    let y ← next right
    return Number.ofBool (op.holds x y)
  | .logical .and left right => do
    let x ← next left
    if x.isTruthy then
      let y ← next right
      return Number.ofBool y.isTruthy
    else return 0
  | .logical .or left right => do
    let x ← next left
    if x.isTruthy then return 1
    else
      let y ← next right
      return Number.ofBool y.isTruthy
  | .choice condition whenTrue whenFalse => do
    let x ← next condition
    if x.isTruthy then next whenTrue else next whenFalse
  | .ifThen condition body => do
    let x ← next condition
    if x.isTruthy then next body else return 0
  | .ifElse condition body otherwise => do
    let x ← next condition
    if x.isTruthy then next body else next otherwise
  | .declare name => Evaluation.write name 0
  | .declareAs name initializer => do
    let x ← next initializer
    Evaluation.write name x
  | .assign op name value => do
    let x ← next value
    Evaluation.assign op name x
  -- the value is that of the last statement, or zero
  | .sequence statements =>
    statements.attach.foldlM (fun _ statement => next statement.1 statement.2) 0
  | .empty => pure 0
  | .mathCall function argument => do
    let x ← next argument
    return function.apply x
  | .multiCall function arguments => do
    let xs ← arguments.attach.mapM (fun argument => next argument.1 argument.2)
    return function.apply xs
  | .randomValue provider => Evaluation.draw provider .fraction
  | .randomInteger provider bound => do
    let x ← next bound
    let limit := x.truncate
    if limit > 0 then Evaluation.draw provider (.integerBelow limit) else return 0
  | .randomBelow provider bound => do
    let x ← next bound
    if x > 0 then Evaluation.draw provider (.below x) else return 0

/-- The value of a tree. -/
@[semireducible] def Node.evaluate (node : Node) : Evaluation σ Number :=
  node.evaluateWith fun child _below => child.evaluate
termination_by sizeOf node
decreasing_by exact sizeOf_lt_of_mem_children _below

/-- What came of an evaluation. -/
structure Run (σ : Type) where
  /-- The value, or why there is none. -/
  outcome : Except EvaluationError Number
  /-- The context behind the evaluation. -/
  context : Context
  /-- The providers behind the evaluation. -/
  sources : Sources σ
  /-- The calls made to the providers, in order. -/
  calls : List Call

/-- The evaluation of a tree in a context. -/
def Node.run (node : Node) (context : Context) (sources : Sources σ) : Run σ :=
  match node.evaluate { context, sources, calls := [] } with
  | .ok value m => ⟨.ok value, m.context, m.sources, m.calls⟩
  | .error e m => ⟨.error e, m.context, m.sources, m.calls⟩

end Nodes

end Formulary
