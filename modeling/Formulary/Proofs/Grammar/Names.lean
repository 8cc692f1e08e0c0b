import Formulary.Proofs.Grammar.Derivation

/-!
# The names of a tree

Which names a tree makes local and which it takes as inputs, found by one pass over the tree in the
order of its text.

- `Scope.visit` is the pass over one tree and `Scope.visitAll` the pass over several.
- `Scope.visit_calls` and `Scope.visit_collapse` say that neither the callee of a call nor the
  braces of a block leave a trace.
-/

namespace Formulary

namespace Scope

mutual

/-- The scope behind a tree. A declared name is local from its first value on, an assigned name
only behind the value. -/
def visit (s : Scope) : Node → Scope
  | .constant _ => s
  | .read name => s.use name
  | .negate operand => s.visit operand
  | .not operand => s.visit operand
  | .arithmetic _ left right => (s.visit left).visit right
  | .comparison _ left right => (s.visit left).visit right
  | .logical _ left right => (s.visit left).visit right
  | .choice condition whenTrue whenFalse => ((s.visit condition).visit whenTrue).visit whenFalse
  | .ifThen condition body => (s.visit condition).visit body
  | .ifElse condition body otherwise => ((s.visit condition).visit body).visit otherwise
  | .declare name => s.bind name
  | .declareAs name initializer => (s.bind name).visit initializer
  | .assign _ name value => (s.visit value).bind name
  | .sequence statements => s.visitAll statements
  | .empty => s
  | .mathCall _ argument => s.visit argument
  | .multiCall _ arguments => s.visitAll arguments
  | .randomValue _ => s
  | .randomInteger _ bound => s.visit bound
  | .randomBelow _ bound => s.visit bound

/-- The scope behind several trees. -/
def visitAll (s : Scope) : List Node → Scope
  | [] => s
  | node :: rest => (s.visit node).visitAll rest

end

@[simp] theorem visitAll_nil (s : Scope) : s.visitAll [] = s := by rw [visitAll]

@[simp] theorem visitAll_cons (s : Scope) (node : Node) (rest : List Node) :
    s.visitAll (node :: rest) = (s.visit node).visitAll rest := by rw [visitAll]

theorem visitAll_append (s : Scope) (nodes more : List Node) :
    s.visitAll (nodes ++ more) = (s.visitAll nodes).visitAll more := by
  induction nodes generalizing s with
  | nil => simp
  | cons node rest ih => simp [ih]

/-- Several statements in one tree have the names of the statements. -/
theorem visit_collapse (s : Scope) (whenEmpty : Node) (h : s.visit whenEmpty = s)
    (nodes : List Node) : s.visit (Grammar.collapse whenEmpty nodes) = s.visitAll nodes := by
  match nodes with
  | [] => rw [Grammar.collapse, h, visitAll_nil]
  | [node] => rw [Grammar.collapse, visitAll_cons, visitAll_nil]
  | _ :: _ :: _ => simp [Grammar.collapse, visit]

/-- A call has the names of its arguments. -/
theorem visit_calls {ρ : ProviderId} {name : Text} {nodes : List Node} {node : Node}
    (h : Grammar.Calls ρ name nodes node) (s : Scope) : s.visit node = s.visitAll nodes := by
  cases h with
  | math f argument => rw [visit, visitAll_cons, visitAll_nil]
  | multi f first others => rw [visit]
  | randomValue => rw [visit, visitAll_nil]
  | randomInteger bound => rw [visit, visitAll_cons, visitAll_nil]
  | randomBelow bound => rw [visit, visitAll_cons, visitAll_nil]

end Scope

end Formulary
