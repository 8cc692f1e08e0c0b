import Formulary.Proofs.Grammar.Derivation
import Formulary.Proofs.Tree.Basic

/-!
# The height of trees

A tree grows in two ways. Operators of one layer that follow each other make a chain down the left
operands, as long as the text goes on. Any other step down belongs to a phrase inside a phrase. The
height counts both, the nesting counts the second only.

- `Node.reach` is the most costly way down a tree, and `Node.height` and `Node.nesting` are the two
  costs.
- `Node.chain` is the length of the chain that a tree begins with, and `Node.ChainsWithin` bounds
  the chains of all its parts.
- `Node.height_le` bounds the height by the nesting and the longest chain.
-/

namespace Formulary

open Grammar (Layer)

namespace Node

/-! ## Left operands -/

/-- The layer of an operator that groups to the left. -/
def layer? : Node → Option Layer
  | .logical .or _ _ => some .disjunction
  | .logical .and _ _ => some .conjunction
  | .arithmetic .add _ _ | .arithmetic .subtract _ _ => some .additive
  | .arithmetic .multiply _ _ | .arithmetic .divide _ _ | .arithmetic .remainder _ _ =>
    some .multiplicative
  | _ => none

/-- The left operand of an operator. -/
def left? : Node → Option Node
  | .arithmetic _ left _ | .logical _ left _ => some left
  | _ => none

/-- The trees right below a node but for a left operand. -/
def others : Node → List Node
  | .arithmetic _ _ right | .logical _ _ right => [right]
  | node => node.children

theorem children_eq (node : Node) : node.children = node.left?.toList ++ node.others := by
  cases node <;> rfl

/-- The left operand is an operator of the same layer. -/
def isChained (node : Node) : Bool := node.layer?.isSome && node.left?.any (·.layer? = node.layer?)

/-- How many operators of its layer follow an operator down the left operands. -/
def chain : Node → Nat
  | .arithmetic op left right =>
    if (Node.arithmetic op left right).isChained then left.chain + 1 else 0
  | .logical op left right =>
    if (Node.logical op left right).isChained then left.chain + 1 else 0
  | _ => 0

theorem chain_of_isChained {node left : Node} (hleft : node.left? = some left)
    (h : node.isChained = true) : node.chain = left.chain + 1 := by
  cases node with
  | arithmetic | logical =>
      cases hleft
      rw [chain, if_pos h]
  | _ => cases hleft

/-- No chain in the tree is longer. -/
def ChainsWithin (longest : Nat) (node : Node) : Prop :=
  ∀ part : Node, part.Occurs node → part.chain ≤ longest

theorem chainsWithin_iff {longest : Nat} {node : Node} :
    node.ChainsWithin longest
      ↔ node.chain ≤ longest ∧ ∀ child ∈ node.children, child.ChainsWithin longest := by
  constructor
  · intro h
    exact ⟨h node .here, fun child hchild part hpart => h part (.inside hchild hpart)⟩
  · rintro ⟨hnode, hchildren⟩ part hpart
    rcases occurs_iff.mp hpart with rfl | ⟨child, hchild, hpart⟩
    · exact hnode
    · exact hchildren child hchild part hpart

/-! ## Ways down a tree -/

mutual

/-- What the steps of a way down a tree cost together at most. The step to the left operand of an
operator costs what the operator says, and any other step costs one. -/
def reach (cost : Node → Nat) : Node → Nat
  | .constant _ | .read _ | .declare _ | .empty | .randomValue _ => 0
  | .negate x | .not x | .declareAs _ x | .assign _ _ x | .mathCall _ x | .randomInteger _ x
  | .randomBelow _ x => x.reach cost + 1
  | .arithmetic op x y => max (x.reach cost + cost (.arithmetic op x y)) (y.reach cost + 1)
  | .logical op x y => max (x.reach cost + cost (.logical op x y)) (y.reach cost + 1)
  | .comparison _ x y | .ifThen x y => max (x.reach cost + 1) (y.reach cost + 1)
  | .choice c x y | .ifElse c x y =>
    max (c.reach cost + 1) (max (x.reach cost + 1) (y.reach cost + 1))
  | .sequence xs | .multiCall _ xs => reachAll cost xs

/-- The same for the ways that begin with a step to one of several trees. -/
def reachAll (cost : Node → Nat) : List Node → Nat
  | [] => 0
  | x :: xs => max (x.reach cost + 1) (reachAll cost xs)

end

theorem reachAll_le_iff {cost : Node → Nat} {nodes : List Node} {n : Nat} :
    reachAll cost nodes ≤ n ↔ ∀ x ∈ nodes, x.reach cost + 1 ≤ n := by
  induction nodes with
  | nil => simp [reachAll]
  | cons x xs ih => rw [reachAll, Nat.max_le, ih, List.forall_mem_cons]

/-- Nothing goes further down than its steps: to a left operand, and to the other trees below. -/
theorem reach_le_iff {cost : Node → Nat} {node : Node} {n : Nat} :
    node.reach cost ≤ n
      ↔ (∀ x ∈ node.left?, x.reach cost + cost node ≤ n)
        ∧ ∀ x ∈ node.others, x.reach cost + 1 ≤ n := by
  cases node with
  | sequence | multiCall => simp [reach, left?, others, children, reachAll_le_iff]
  | arithmetic | logical | comparison | choice | ifThen | ifElse =>
      simp only [reach, left?, others, children, Nat.max_le, List.forall_mem_cons]
      simp
  | _ => simp [reach, left?, others, children]

/-- The number of steps of the longest way down a tree. -/
def height (node : Node) : Nat := node.reach fun _ => 1

/-- The number of steps of a way down a tree that do not go on with a chain, at most. -/
def nesting (node : Node) : Nat := node.reach fun operator => if operator.isChained then 0 else 1

theorem height_le_iff {node : Node} {n : Nat} :
    node.height ≤ n ↔ ∀ child ∈ node.children, child.height + 1 ≤ n := by
  rw [height, reach_le_iff, children_eq, List.forall_mem_append]
  simp only [Option.mem_toList, Option.mem_def, height]

theorem nesting_le_iff {node : Node} {n : Nat} :
    node.nesting ≤ n
      ↔ (∀ x ∈ node.left?, x.nesting + (if node.isChained then 0 else 1) ≤ n)
        ∧ ∀ x ∈ node.others, x.nesting + 1 ≤ n := reach_le_iff

theorem nesting_le_of_children {node : Node} {n : Nat}
    (h : ∀ child ∈ node.children, child.nesting + 1 ≤ n) : node.nesting ≤ n := by
  rw [children_eq, List.forall_mem_append] at h
  refine nesting_le_iff.mpr ⟨fun x hx => ?_, h.2⟩
  have hleft := h.1 x (Option.mem_toList.mpr hx)
  split <;> omega

theorem height_lt_of_mem {child node : Node} (h : child ∈ node.children) :
    child.height < node.height := height_le_iff.mp (Nat.le_refl _) child h

/-- A way down is made of its steps to other phrases, with at most a chain before, between and
behind them. -/
theorem height_le {longest : Nat} (node : Node) (h : node.ChainsWithin longest) :
    node.height ≤ node.nesting * (longest + 1) + node.chain := by
  induction node using Node.induction_children with
  | step node ih =>
      obtain ⟨-, hchains⟩ := chainsWithin_iff.mp h
      obtain ⟨hleft, hothers⟩ := nesting_le_iff.mp (Nat.le_refl node.nesting)
      -- a step to another phrase may begin a chain of its own
      have hstep : ∀ x ∈ node.children, x.nesting + 1 ≤ node.nesting →
          x.height + 1 ≤ node.nesting * (longest + 1) + node.chain := by
        intro x hx hnesting
        have hheight := ih x hx (hchains x hx)
        have hchain := hchains x hx x .here
        calc x.height + 1
            ≤ (x.nesting + 1) * (longest + 1) := by rw [Nat.succ_mul]; omega
          _ ≤ node.nesting * (longest + 1) := Nat.mul_le_mul_right _ hnesting
          _ ≤ node.nesting * (longest + 1) + node.chain := Nat.le_add_right _ _
      refine height_le_iff.mpr fun x hx => ?_
      rcases List.mem_append.mp (children_eq node ▸ hx) with hmem | hmem
      · have hmem := Option.mem_toList.mp hmem
        have hnesting := hleft x hmem
        cases hchained : node.isChained with
        | false =>
            rw [hchained] at hnesting
            exact hstep x hx hnesting
        | true =>
            rw [hchained, if_pos rfl] at hnesting
            rw [chain_of_isChained hmem hchained]
            calc x.height + 1
                ≤ x.nesting * (longest + 1) + (x.chain + 1) :=
                  Nat.succ_le_succ (ih x hx (hchains x hx))
              _ ≤ node.nesting * (longest + 1) + (x.chain + 1) :=
                  Nat.add_le_add_right (Nat.mul_le_mul_right _ hnesting) _
      · exact hstep x hx (hothers x hmem)

end Node

end Formulary
