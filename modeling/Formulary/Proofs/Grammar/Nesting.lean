import Formulary.Proofs.Grammar.Program
import Formulary.Proofs.Tree.Height

/-!
# The nesting of trees

Between one level of nesting and the next, the productions are few: an expression goes down to an
operand in eight steps at most, unless it goes on with a chain. So the levels that a phrase opens
bound the nesting of its trees.

- `Grammar.Category.steps` counts the steps of each kind of phrase.
- `Grammar.Derives.nesting_le` bounds the nesting of the trees of every phrase.
- `Formula.nesting_le_of_parse` is the bound for whole texts.
-/

namespace Formulary

variable {ρ : ProviderId}

namespace Grammar

/-! ## Steps of a phrase -/

/-- How many steps a phrase takes at most before the next level of nesting is opened. -/
def Category.steps : Category → Nat
  | .statements | .arguments => 0
  | .statement | .primary | .unary => 1
  | .exponent => 2
  | .layer .multiplicative | .run .multiplicative => 3
  | .layer .additive | .run .additive => 4
  | .comparison => 5
  | .layer .conjunction | .run .conjunction => 6
  | .layer .disjunction | .run .disjunction => 7
  | .expression => 8

/-- The nesting of a tree in a phrase of a kind. More operands may follow in a run, so that a tree
that is no operator of the layer yet counts as the left operand of one. -/
def Category.nesting : Category → Node → Nat
  | .run l, node => if node.layer? = some l then node.nesting else node.nesting + 1
  | _, node => node.nesting

theorem Layer.nesting_operand (l : Layer) (node : Node) :
    l.operand.nesting node = node.nesting := by
  cases l <;> rfl

theorem Layer.steps_operand (l : Layer) : (Category.run l).steps = l.operand.steps + 1 := by
  cases l <;> rfl

theorem Layer.steps_layer (l : Layer) : (Category.layer l).steps = (Category.run l).steps := by
  cases l <;> rfl

theorem Category.nesting_bounds (k : Category) (node : Node) :
    node.nesting ≤ k.nesting node ∧ k.nesting node ≤ node.nesting + 1 := by
  cases k with
  | run l =>
      rw [nesting]
      split <;> omega
  | _ => exact ⟨Nat.le_refl _, Nat.le_succ _⟩

/-! ## Trees of a phrase -/

/-- An operator goes on with the chain of its left operand. -/
theorem Layer.Builds.nesting_le {l : Layer} {op : Operator} {build : Node → Node → Node}
    (h : l.Builds op build) {x y : Node} {n : Nat} (hx : (Category.run l).nesting x ≤ n)
    (hy : y.nesting + 1 ≤ n) : (Category.run l).nesting (build x y) ≤ n := by
  have hlayer : (build x y).layer? = some l := by cases h <;> rfl
  have hleft : (build x y).left? = some x := by cases h <;> rfl
  have hothers : (build x y).others = [y] := by cases h <;> rfl
  have hchained : (build x y).isChained = decide (x.layer? = some l) := by
    rw [Node.isChained, hlayer, hleft]
    rfl
  rw [Category.nesting, if_pos hlayer, Node.nesting_le_iff, hleft, hothers, hchained]
  refine ⟨fun z hz => ?_, List.forall_mem_singleton.mpr hy⟩
  cases hz
  rw [Category.nesting] at hx
  split at hx
  · rename_i hsame
    rwa [decide_eq_true hsame, if_pos rfl]
  · rename_i hsame
    rwa [decide_eq_false hsame]

theorem Signs.nesting_le {op : Operator} {build : Node → Node} (h : Signs op build) (x : Node) :
    (build x).nesting ≤ x.nesting + 1 := by
  cases h with
  | minus | not =>
      exact Node.nesting_le_of_children (List.forall_mem_singleton.mpr (Nat.le_refl _))
  | plus => exact Nat.le_succ _

theorem Calls.nesting_le {name : Text} {xs : List Node} {node : Node} (h : Calls ρ name xs node)
    {n : Nat} (hxs : ∀ x ∈ xs, x.nesting ≤ n) : node.nesting ≤ n + 1 := by
  have hchildren : node.children = xs := by cases h <;> rfl
  exact Node.nesting_le_of_children fun x hx => Nat.succ_le_succ (hxs x (hchildren ▸ hx))

theorem nesting_collapse {whenEmpty : Node} (hempty : whenEmpty.nesting = 0) {nodes : List Node}
    {n : Nat} (h : ∀ node ∈ nodes, node.nesting ≤ n) :
    (collapse whenEmpty nodes).nesting ≤ n + 1 := by
  match nodes, h with
  | [], _ =>
      rw [collapse, hempty]
      exact Nat.zero_le _
  | [node], h => exact Nat.le_succ_of_le (h node (by simp))
  | _ :: _ :: _, h => exact Node.nesting_le_of_children fun x hx => Nat.succ_le_succ (h x hx)

/-- A phrase takes few steps outside of the levels that it opens, and each of these takes eight at
most. -/
theorem Derives.nesting_le {d : Nat} {k : Category} {ts rest : List Token} {nodes : List Node}
    (h : Derives ρ d k ts nodes rest) : ∀ node ∈ nodes, k.nesting node ≤ 8 * d + k.steps := by
  induction h with
  | none =>
      intro node hnode
      cases hnode
  | semicolon _ _ ih => exact ih
  | cons _ _ ih ihs | more _ _ _ ih ihs =>
      simp only [List.forall_mem_singleton, Category.nesting, Category.steps] at ih ihs ⊢
      refine List.forall_mem_cons.mpr ⟨by omega, fun node hnode => ?_⟩
      have hothers := ihs node hnode
      omega
  | declare | number | read => exact List.forall_mem_singleton.mpr (Nat.zero_le _)
  | declareAs _ _ _ _ ih | assign _ _ _ _ _ ih =>
      simp only [List.forall_mem_singleton, Category.nesting, Category.steps] at ih ⊢
      exact Node.nesting_le_of_children (List.forall_mem_singleton.mpr (by omega))
  | ifThen _ _ _ _ _ _ ihc ihx =>
      simp only [List.forall_mem_singleton, Category.nesting, Category.steps] at ihc ihx ⊢
      exact Node.nesting_le_of_children
        (List.forall_mem_cons.mpr ⟨by omega, List.forall_mem_singleton.mpr (by omega)⟩)
  | ifElse _ _ _ _ _ _ _ _ ihc ihx ihy | choice _ _ _ _ _ ihc ihx ihy =>
      simp only [List.forall_mem_singleton, Category.nesting, Category.steps] at ihc ihx ihy ⊢
      exact Node.nesting_le_of_children (List.forall_mem_cons.mpr ⟨by omega,
        List.forall_mem_cons.mpr ⟨by omega, List.forall_mem_singleton.mpr (by omega)⟩⟩)
  | block _ _ _ ih => exact List.forall_mem_singleton.mpr (nesting_collapse rfl ih)
  | evaluate _ _ ih | plain _ _ ih | uncompared _ _ ih | base _ _ ih | unsigned _ ih
  | group _ _ _ ih | last _ ih =>
      simp only [List.forall_mem_singleton, Category.nesting, Category.steps] at ih ⊢
      omega
  | layer _ _ ih =>
      rw [List.forall_mem_singleton] at ih ⊢
      rw [Layer.steps_layer]
      exact Nat.le_trans (Category.nesting_bounds _ _).1 ih
  | first _ ih =>
      rw [List.forall_mem_singleton, Layer.nesting_operand] at ih
      rw [List.forall_mem_singleton, Layer.steps_operand]
      exact Nat.le_trans (Category.nesting_bounds _ _).2 (Nat.succ_le_succ ih)
  | next _ kind _ _ ihx ihy =>
      rw [List.forall_mem_singleton] at ihx ihy ⊢
      rw [Layer.nesting_operand] at ihy
      refine kind.nesting_le (by omega) ?_
      rw [Layer.steps_operand]
      omega
  | compared _ _ _ _ ihx ihy | power _ _ _ ihx ihy =>
      simp only [List.forall_mem_singleton, Category.nesting, Category.steps] at ihx ihy ⊢
      exact Node.nesting_le_of_children
        (List.forall_mem_cons.mpr ⟨by omega, List.forall_mem_singleton.mpr (by omega)⟩)
  | @signed _ _ _ _ _ node _ kind _ _ ih =>
      simp only [List.forall_mem_singleton, Category.nesting, Category.steps] at ih ⊢
      have hsigned := kind.nesting_le node
      omega
  | callEmpty _ _ _ call =>
      refine List.forall_mem_singleton.mpr (call.nesting_le fun x hx => ?_)
      cases hx
  | call _ _ _ _ call ih => exact List.forall_mem_singleton.mpr (call.nesting_le ih)

end Grammar

namespace Formula

/-- The limit bounds the nesting of every tree that is read. -/
theorem nesting_le_of_parse {limit : Nat} {source : Text} {f : Formula}
    (h : parseWithin ρ limit source = .ok f) : f.root.nesting ≤ 8 * limit + 1 := by
  obtain ⟨tokens, htokens⟩ := tokenize_of_parseWithin h
  obtain ⟨d, hd, nodes, hder, rfl⟩ := (parseWithin_eq_ok_iff htokens).mp h
  have hnodes : ∀ node ∈ nodes, node.nesting ≤ 8 * limit := by
    intro node hnode
    have hnode : node.nesting ≤ 8 * d := hder.nesting_le node hnode
    omega
  exact Grammar.nesting_collapse rfl hnodes

end Formula

end Formulary
