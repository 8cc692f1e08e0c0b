import Formulary.Node

/-!
# Walking trees

A tree holds its parts partly in lists, so that facts about all trees are proved from the parts of
one node at a time.

- `Node.induction_children` is the induction along the trees right below a node.
- `Node.Occurs` says that a tree is part of another.
-/

namespace Formulary

namespace Node

/-- What holds of a node whenever it holds of the trees right below it holds of every tree. -/
theorem induction_children {P : Node → Prop}
    (step : ∀ node : Node, (∀ child ∈ node.children, P child) → P node) (node : Node) : P node :=
  step node fun child mem =>
    have := sizeOf_lt_of_mem_children mem
    induction_children step child
termination_by sizeOf node

/-- A tree is part of another, or is all of it. -/
inductive Occurs (part : Node) : Node → Prop where
  | here : Occurs part part
  | inside {child node : Node} (mem : child ∈ node.children) (occurs : Occurs part child) :
      Occurs part node

/-- Either the whole tree or part of a tree right below it. -/
theorem occurs_iff {part node : Node} :
    part.Occurs node ↔ part = node ∨ ∃ child ∈ node.children, part.Occurs child := by
  constructor
  · intro h
    cases h with
    | here => exact .inl rfl
    | inside mem occurs => exact .inr ⟨_, mem, occurs⟩
  · rintro (rfl | ⟨child, mem, occurs⟩)
    · exact .here
    · exact .inside mem occurs

/-- The provider that a random node holds. -/
def provider? : Node → Option ProviderId
  | .randomValue id | .randomInteger id _ | .randomBelow id _ => some id
  | _ => none

/-- A statement run on a condition. -/
def isConditional : Node → Bool
  | .ifThen _ _ => true
  | .ifElse _ _ _ => true
  | _ => false

end Node

end Formulary
