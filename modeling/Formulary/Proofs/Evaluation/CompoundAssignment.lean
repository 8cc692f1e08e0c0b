import Formulary.Proofs.Evaluation.Purity

/-!
# Assignments that combine

`x += e` computes `e` first and looks at `x` then; `x = x + (e)` looks at `x` first. The two agree
because no expression of a text writes a name: whatever `e` draws, reads or fails at, `x` has the same
value before it and behind it.

- `Evaluation.read_of_get?` and `Evaluation.assign_of_get?` are the two looks at a bound name.
- `Node.evaluate_assign_eq` compares the two statements in one state, and
  `Formula.run_assign_eq_spelledOut` is the statement about the expressions of texts.
-/

namespace Formulary

variable {ρ : ProviderId}

namespace Evaluation

variable {σ : Type} {m : Machine σ} {name : Text} {present : Number}

theorem read_of_get? (h : m.context.get? name = some present) :
    read name m = .ok present m := by
  rw [read, h]

/-- A combining assignment to a bound name writes the result of its operator. -/
theorem assign_of_get? (h : m.context.get? name = some present) {op : AssignmentOp}
    {arithmetic : ArithmeticOp} (hop : op.arithmetic? = some arithmetic) (value : Number) :
    assign op name value m = write name (arithmetic.apply present value) m := by
  rw [assign, hop]
  dsimp only
  rw [bind_apply, readOrZero, h]
  rfl

end Evaluation

open Evaluation

namespace Node

/-- A node that writes nothing and runs no statements, in a place where a statement may stand, is an
expression. -/
theorem IsStatement.isExpression {x : Node} (h : x.IsStatement) (hform : x.isStatementForm = false) :
    x.IsExpression := by
  cases h with
  | expression value => exact value
  | _ => cases hform

variable {σ : Type} [RandomProvider σ]

/-- In a state where the name is bound, a combining assignment does what the plain assignment of its
operation does. -/
theorem evaluate_assign_eq {e : Node} (he : e.IsExpression) {op : AssignmentOp}
    {arithmetic : ArithmeticOp} (hop : op.arithmetic? = some arithmetic) {name : Text}
    {m : Machine σ} {present : Number} (hpresent : m.context.get? name = some present) :
    (assign op name e).evaluate m
      = (assign .set name (.arithmetic arithmetic (.read name) e)).evaluate m := by
  have hkeeps := e.evaluate_uses.context_eq he.bind_not_mem_mentions m
  have hread : (Node.read name).evaluate m = .ok present m := by
    rw [evaluate]
    exact read_of_get? hpresent
  have hoperation : (Node.arithmetic arithmetic (.read name) e).evaluate m
      = (e.evaluate >>= fun y => pure (arithmetic.apply present y)) m := by
    rw [evaluate]
    show ((Node.read name).evaluate >>= _) m = _
    rw [bind_apply, hread]
  rw [evaluate, evaluate]
  show (e.evaluate >>= _) m = ((Node.arithmetic arithmetic (.read name) e).evaluate >>= _) m
  rw [bind_apply, bind_apply, hoperation, bind_apply]
  generalize e.evaluate m = r at hkeeps
  cases r with
  | error error m' => rfl
  | ok value m' =>
      have hbehind : m'.context.get? name = some present := by
        rw [← hpresent]
        exact congrArg (OrderedMap.get? · name) hkeeps
      exact assign_of_get? hbehind hop value

end Node

namespace Formula

variable {σ : Type} [RandomProvider σ]

/-- Take any expression in the tree of a text, any name, any combining assignment and any context in
which the name is bound. The assignment and the plain assignment of its operation have the same
outcome, leave the same context and make the same calls, behind which the providers are the same. -/
theorem run_assign_eq_spelledOut {source : Text} {f : Formula} (hf : parse ρ source = .ok f)
    {e : Node} (hoccurs : e.Occurs f.root) (hvalue : e.isStatementForm = false)
    {op : AssignmentOp} {arithmetic : ArithmeticOp} (hop : op.arithmetic? = some arithmetic)
    {name : Text} {context : Context} (hbound : context.contains name = true)
    (sources : Sources σ) :
    (Node.assign op name e).run context sources
      = (Node.assign .set name (.arithmetic arithmetic (.read name) e)).run context sources := by
  have he : e.IsExpression := ((inputs_of_parse hf).1.of_occurs hoccurs).isExpression hvalue
  obtain ⟨present, hpresent⟩ := Option.isSome_iff_exists.mp hbound
  have heval := Node.evaluate_assign_eq (m := ⟨context, sources, []⟩) he hop hpresent
  rw [Node.run, Node.run, heval]

/-- The expression draws a number and reads the name that is assigned to. Without `y` it fails behind
the draw, and the name keeps its value. -/
theorem run_assign_eq_spelledOut_draw :
    ∃ (f : Formula) (e plain : Node) (sources : Sources FixedFraction),
      parse ⟨0⟩ (Text.ofString "z=random()*x-y") = .ok f
      ∧ f.root = .assign .set (Text.ofString "z") e
      ∧ plain = .assign .set (Text.ofString "x")
        (.arithmetic .subtract (.read (Text.ofString "x")) e)
      ∧ (Node.assign .subtract (Text.ofString "x") e).run
          ⟨[(Text.ofString "y", 1), (Text.ofString "x", 3)]⟩ sources
        = plain.run ⟨[(Text.ofString "y", 1), (Text.ofString "x", 3)]⟩ sources
      ∧ (let r := plain.run ⟨[(Text.ofString "y", 1), (Text.ofString "x", 3)]⟩ sources
        r.outcome = .ok 2.5 ∧ r.calls = [⟨⟨0⟩, .fraction⟩]
          ∧ r.context = ⟨[(Text.ofString "y", 1), (Text.ofString "x", 2.5)]⟩)
      ∧ (Node.assign .subtract (Text.ofString "x") e).run ⟨[(Text.ofString "x", 3)]⟩ sources
        = plain.run ⟨[(Text.ofString "x", 3)]⟩ sources
      ∧ (let r := plain.run ⟨[(Text.ofString "x", 3)]⟩ sources
        r.outcome = .error (.missingVariable (Text.ofString "y"))
          ∧ r.calls = [⟨⟨0⟩, .fraction⟩] ∧ r.context = ⟨[(Text.ofString "x", 3)]⟩) := by
  have hf : parse ⟨0⟩ (Text.ofString "z=random()*x-y") = .ok ⟨Text.ofString "z=random()*x-y",
      .assign .set (Text.ofString "z") (.arithmetic .subtract
        (.arithmetic .multiply (.randomValue ⟨0⟩) (.read (Text.ofString "x")))
        (.read (Text.ofString "y"))), ["x", "y"].map Text.ofString⟩ := rfl
  refine ⟨_, _, _, .own fun _ => .half, hf, rfl, rfl, ?_, ⟨rfl, rfl, rfl⟩, ?_, rfl, rfl, rfl⟩
  · exact run_assign_eq_spelledOut hf (.inside (.head _) .here) rfl rfl (by decide) _
  · exact run_assign_eq_spelledOut hf (.inside (.head _) .here) rfl rfl (by decide) _

end Formula

end Formulary
