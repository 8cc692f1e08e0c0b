import Formulary.Proofs.Tree.Basic

/-!
# The providers that a tree is bound to

Every random node holds the provider that it draws from. A tree is bound to the providers that its
random nodes hold, and is bound to others by exchanging these and leaving all else as it is.

- `Node.DrawsFrom` says that some random node of a tree holds a provider.
- `Node.rebind` exchanges the providers, and `Node.drawsFrom_rebind_iff` says what the tree draws from
  then.
-/

namespace Formulary

namespace Node

/-- A tree draws from a provider: one of its random nodes holds it. -/
def DrawsFrom (node : Node) (id : ProviderId) : Prop :=
  ∃ part : Node, part.Occurs node ∧ part.provider? = some id

/-- A tree draws from what its root holds and from what the trees right below it draw from. -/
theorem drawsFrom_iff {node : Node} {id : ProviderId} :
    node.DrawsFrom id ↔ node.provider? = some id ∨ ∃ child ∈ node.children, child.DrawsFrom id := by
  constructor
  · rintro ⟨part, occurs, hpart⟩
    rcases occurs_iff.mp occurs with rfl | ⟨child, mem, occurs⟩
    · exact .inl hpart
    · exact .inr ⟨child, mem, part, occurs, hpart⟩
  · rintro (hnode | ⟨child, mem, part, occurs, hpart⟩)
    · exact ⟨node, .here, hnode⟩
    · exact ⟨part, .inside mem occurs, hpart⟩

theorem DrawsFrom.of_child {child node : Node} {id : ProviderId} (mem : child ∈ node.children)
    (h : child.DrawsFrom id) : node.DrawsFrom id :=
  drawsFrom_iff.mpr (.inr ⟨child, mem, h⟩)

/-! ## Exchanging providers -/

mutual

/-- The tree with other providers in its random nodes. -/
def rebind (f : ProviderId → ProviderId) : Node → Node
  | .constant value => .constant value
  | .read name => .read name
  | .negate operand => .negate (operand.rebind f)
  | .not operand => .not (operand.rebind f)
  | .arithmetic op left right => .arithmetic op (left.rebind f) (right.rebind f)
  | .comparison op left right => .comparison op (left.rebind f) (right.rebind f)
  | .logical op left right => .logical op (left.rebind f) (right.rebind f)
  | .choice condition whenTrue whenFalse =>
    .choice (condition.rebind f) (whenTrue.rebind f) (whenFalse.rebind f)
  | .ifThen condition body => .ifThen (condition.rebind f) (body.rebind f)
  | .ifElse condition body otherwise =>
    .ifElse (condition.rebind f) (body.rebind f) (otherwise.rebind f)
  | .declare name => .declare name
  | .declareAs name initializer => .declareAs name (initializer.rebind f)
  | .assign op name value => .assign op name (value.rebind f)
  | .sequence statements => .sequence (rebindAll f statements)
  | .empty => .empty
  | .mathCall function argument => .mathCall function (argument.rebind f)
  | .multiCall function arguments => .multiCall function (rebindAll f arguments)
  | .randomValue provider => .randomValue (f provider)
  | .randomInteger provider bound => .randomInteger (f provider) (bound.rebind f)
  | .randomBelow provider bound => .randomBelow (f provider) (bound.rebind f)

/-- Several trees with other providers in their random nodes. -/
def rebindAll (f : ProviderId → ProviderId) : List Node → List Node
  | [] => []
  | node :: rest => node.rebind f :: rebindAll f rest

end

variable {f : ProviderId → ProviderId}

theorem rebindAll_eq_map (nodes : List Node) : rebindAll f nodes = nodes.map (rebind f) := by
  induction nodes with
  | nil => rw [rebindAll, List.map_nil]
  | cons node rest ih => rw [rebindAll, List.map_cons, ih]

theorem provider?_rebind (node : Node) : (node.rebind f).provider? = node.provider?.map f := by
  cases node <;> simp [rebind, provider?]

theorem children_rebind (node : Node) :
    (node.rebind f).children = node.children.map (rebind f) := by
  cases node <;> simp [rebind, children, rebindAll_eq_map]

/-- Providers that stay as they are leave the tree as it is. -/
@[simp] theorem rebind_id (node : Node) : node.rebind id = node := by
  induction node using induction_children with
  | step node ih =>
      cases node with
      | sequence | multiCall =>
          rw [rebind, rebindAll_eq_map]
          congr 1
          exact (List.map_congr_left ih).trans (List.map_id' _)
      | _ => simp_all [rebind, children]

/-- The tree draws from the providers that have taken the place of others. -/
theorem drawsFrom_rebind_iff {node : Node} {id : ProviderId} :
    (node.rebind f).DrawsFrom id ↔ ∃ own, node.DrawsFrom own ∧ f own = id := by
  induction node using induction_children with
  | step node ih =>
      rw [drawsFrom_iff, provider?_rebind, children_rebind, Option.map_eq_some_iff]
      constructor
      · rintro (⟨own, hown, rfl⟩ | ⟨_, hmap, hid⟩)
        · exact ⟨own, drawsFrom_iff.mpr (.inl hown), rfl⟩
        · obtain ⟨child, mem, rfl⟩ := List.mem_map.mp hmap
          obtain ⟨own, hown, rfl⟩ := (ih child mem).mp hid
          exact ⟨own, hown.of_child mem, rfl⟩
      · rintro ⟨own, hown, rfl⟩
        rcases drawsFrom_iff.mp hown with hown | ⟨child, mem, hown⟩
        · exact .inl ⟨own, hown, rfl⟩
        · exact .inr ⟨child.rebind f, List.mem_map_of_mem mem, (ih child mem).mpr ⟨own, hown, rfl⟩⟩

end Node

end Formulary
