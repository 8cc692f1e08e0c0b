import Formulary.Proofs.Tree.Basic

/-!
# Places in trees

A place in a tree is told by the way to it: at every step, which of the trees right below to go to.
So a node that occurs several times is told apart by where it stands. Places are put into the order
in which an evaluation is done with them: the trees below a node from left to right, and then the
node.

- `Node.at?` is the tree at a place, and `Path.Before` is the order.
- `Node.sites` lists the random nodes of a tree; `Node.mem_sites_iff` says that it lists all of them,
  and `Node.sites_pairwise` that it does so in order.
-/

namespace Formulary

/-- A way down a tree. -/
abbrev Path := List Nat

/-- The order of evaluation: what is below a node comes before it, and what is further left comes
before what is further right. -/
inductive Path.Before : Path → Path → Prop where
  | operand (i : Nat) (path : Path) : Before (i :: path) []
  | left {i j : Nat} (lt : i < j) (path path' : Path) : Before (i :: path) (j :: path')
  | inside (i : Nat) {path path' : Path} (before : Before path path') : Before (i :: path) (i :: path')

/-- No place comes before itself. -/
theorem Path.Before.ne {path path' : Path} (h : Before path path') : path ≠ path' := by
  induction h with
  | operand i path => exact List.cons_ne_nil i path
  | left lt path path' =>
      intro heq
      exact Nat.ne_of_lt lt (List.cons.inj heq).1
  | inside i _ ih =>
      intro heq
      exact ih (List.cons.inj heq).2

namespace Node

/-- The tree at a place. -/
def at? (node : Node) : Path → Option Node
  | [] => some node
  | i :: path => node.children[i]?.bind fun child => child.at? path

/-- Whether a node may ask a provider for something. -/
def isRandom (node : Node) : Bool := node.provider?.isSome

mutual

/-- The places of the random nodes in the order of evaluation. -/
def sites : Node → List Path
  | .constant _ | .read _ | .declare _ | .empty => []
  | .negate x | .not x | .declareAs _ x | .assign _ _ x | .mathCall _ x => x.sites.map (0 :: ·)
  | .arithmetic _ x y | .comparison _ x y | .logical _ x y | .ifThen x y =>
    x.sites.map (0 :: ·) ++ y.sites.map (1 :: ·)
  | .choice c x y | .ifElse c x y =>
    c.sites.map (0 :: ·) ++ x.sites.map (1 :: ·) ++ y.sites.map (2 :: ·)
  | .sequence xs | .multiCall _ xs => sitesFrom 0 xs
  | .randomValue _ => [[]]
  | .randomInteger _ x | .randomBelow _ x => x.sites.map (0 :: ·) ++ [[]]

/-- The same for several trees below a node, the first of which has the number `i`. -/
def sitesFrom (i : Nat) : List Node → List Path
  | [] => []
  | x :: xs => x.sites.map (i :: ·) ++ sitesFrom (i + 1) xs

end

/-- The random nodes below a node come first, and then the node itself if it is one. -/
theorem sites_eq (node : Node) :
    node.sites = sitesFrom 0 node.children ++ if node.isRandom then [[]] else [] := by
  cases node <;> simp [sites, sitesFrom, children, isRandom, provider?]

theorem mem_sitesFrom_iff {i : Nat} {nodes : List Node} {path : Path} :
    path ∈ sitesFrom i nodes
      ↔ ∃ j x rest, nodes[j]? = some x ∧ rest ∈ x.sites ∧ path = (i + j) :: rest := by
  induction nodes generalizing i with
  | nil => simp [sitesFrom]
  | cons y ys ih =>
      rw [sitesFrom, List.mem_append, List.mem_map, ih]
      constructor
      · rintro (⟨rest, hrest, rfl⟩ | ⟨j, x, rest, hx, hrest, rfl⟩)
        · exact ⟨0, y, rest, rfl, hrest, rfl⟩
        · exact ⟨j + 1, x, rest, hx, hrest, by rw [Nat.add_right_comm, Nat.add_assoc]⟩
      · rintro ⟨j, x, rest, hx, hrest, rfl⟩
        cases j with
        | zero =>
            cases hx
            exact .inl ⟨rest, hrest, rfl⟩
        | succ j => exact .inr ⟨j, x, rest, hx, hrest, by rw [Nat.add_right_comm, Nat.add_assoc]⟩

/-- The sites are the places of the random nodes. -/
theorem mem_sites_iff {node : Node} {path : Path} :
    path ∈ node.sites ↔ ∃ part, node.at? path = some part ∧ part.isRandom = true := by
  induction path generalizing node with
  | nil =>
      have hnot : [] ∉ sitesFrom 0 node.children := by
        rw [mem_sitesFrom_iff]
        rintro ⟨j, x, rest, -, -, heq⟩
        cases heq
      rw [sites_eq, List.mem_append, or_iff_right hnot]
      constructor
      · intro hmem
        by_cases hrandom : node.isRandom = true
        · exact ⟨node, rfl, hrandom⟩
        · rw [if_neg hrandom] at hmem
          cases hmem
      · rintro ⟨part, hpart, hrandom⟩
        cases hpart
        rw [if_pos hrandom]
        exact List.mem_cons_self
  | cons i path ih =>
      have hnot : (i :: path) ∉ if node.isRandom then [[]] else [] := by
        split <;> simp
      rw [sites_eq, List.mem_append, or_iff_left hnot, mem_sitesFrom_iff]
      constructor
      · rintro ⟨j, x, rest, hx, hrest, heq⟩
        rw [Nat.zero_add] at heq
        cases heq
        obtain ⟨part, hpart, hrandom⟩ := ih.mp hrest
        exact ⟨part, by rw [at?, hx]; exact hpart, hrandom⟩
      · rintro ⟨part, hpart, hrandom⟩
        obtain ⟨x, hx, hpart⟩ := Option.bind_eq_some_iff.mp hpart
        exact ⟨i, x, path, hx, ih.mpr ⟨part, hpart, hrandom⟩, by rw [Nat.zero_add]⟩

theorem sitesFrom_pairwise {nodes : List Node} (h : ∀ x ∈ nodes, x.sites.Pairwise Path.Before)
    (i : Nat) : (sitesFrom i nodes).Pairwise Path.Before := by
  induction nodes generalizing i with
  | nil =>
      rw [sitesFrom]
      exact .nil
  | cons x xs ih =>
      obtain ⟨hx, hxs⟩ := List.forall_mem_cons.mp h
      rw [sitesFrom, List.pairwise_append]
      refine ⟨List.pairwise_map.mpr (hx.imp (.inside i)), ih hxs (i + 1), ?_⟩
      intro path hpath path' hpath'
      obtain ⟨rest, -, rfl⟩ := List.mem_map.mp hpath
      obtain ⟨j, y, rest', -, -, rfl⟩ := mem_sitesFrom_iff.mp hpath'
      exact .left (by omega) rest rest'

/-- The sites are listed in the order of evaluation. -/
theorem sites_pairwise (node : Node) : node.sites.Pairwise Path.Before := by
  induction node using induction_children with
  | step node ih =>
      rw [sites_eq, List.pairwise_append]
      refine ⟨sitesFrom_pairwise ih 0, ?_, ?_⟩
      · split
        · exact List.pairwise_singleton _ _
        · exact .nil
      · intro path hpath path' hpath'
        obtain ⟨j, x, rest, -, -, rfl⟩ := mem_sitesFrom_iff.mp hpath
        split at hpath'
        · rw [List.mem_singleton.mp hpath']
          exact .operand _ rest
        · cases hpath'

/-- No site is listed twice. -/
theorem sites_nodup (node : Node) : node.sites.Nodup := node.sites_pairwise.imp fun h => h.ne

end Node

end Formulary
