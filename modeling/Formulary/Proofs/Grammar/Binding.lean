import Formulary.Proofs.Grammar.Program
import Formulary.Proofs.Tree.Mentions
import Formulary.Proofs.Tree.Providers

/-!
# The provider that a text is read with

Reading a text puts one provider into every random node, and nothing else in the tree depends on it.
So the tree of a text that is read with another provider is the same tree with that one in its random
nodes.

- `Grammar.Derives.rebind` says that a phrase stands for the same trees with another provider.
- `Formula.parse_rebind` says it of whole texts, and `Formula.drawsFrom_of_parse` that the provider of
  a text is the only one that its tree draws from.
-/

namespace Formulary

variable {f : ProviderId → ProviderId}

/-! ## Names -/

namespace Node

theorem mentionsAll_map_rebind {nodes : List Node}
    (h : ∀ node ∈ nodes, (node.rebind f).mentions = node.mentions) :
    mentionsAll (nodes.map (rebind f)) = mentionsAll nodes := by
  induction nodes with
  | nil => rfl
  | cons node rest ih =>
      obtain ⟨hnode, hrest⟩ := List.forall_mem_cons.mp h
      rw [List.map_cons, mentionsAll_cons, mentionsAll_cons, hnode, ih hrest]

/-- The names in a tree stay. -/
theorem mentions_rebind (node : Node) : (node.rebind f).mentions = node.mentions := by
  induction node using induction_children with
  | step node ih =>
      cases node with
      | sequence | multiCall =>
          rw [rebind, rebindAll_eq_map, mentions, mentions]
          exact mentionsAll_map_rebind ih
      | _ => simp_all [rebind, mentions, children]

end Node

/-! ## Phrases -/

namespace Grammar

open Node

theorem Layer.Builds.rebind {l : Layer} {op : Operator} {build : Node → Node → Node}
    (h : l.Builds op build) (left right : Node) :
    (build left right).rebind f = build (left.rebind f) (right.rebind f) := by
  cases h <;> rw [Node.rebind]

theorem Signs.rebind {op : Operator} {build : Node → Node} (h : Signs op build) (node : Node) :
    (build node).rebind f = build (node.rebind f) := by
  cases h with
  | minus | not => rw [Node.rebind]
  | plus => rfl

/-- A call with the same arguments draws from the other provider. -/
theorem Calls.rebind {ρ : ProviderId} {name : Text} {nodes : List Node} {node : Node}
    (h : Calls ρ name nodes node) :
    Calls (f ρ) name (nodes.map (Node.rebind f)) (node.rebind f) := by
  cases h with
  | math g argument =>
      rw [Node.rebind]
      exact .math g _
  | multi g first others =>
      rw [Node.rebind, rebindAll_eq_map]
      exact .multi g _ _
  | randomValue =>
      rw [Node.rebind]
      exact .randomValue
  | randomInteger bound =>
      rw [Node.rebind]
      exact .randomInteger _
  | randomBelow bound =>
      rw [Node.rebind]
      exact .randomBelow _

theorem collapse_rebind {whenEmpty : Node} (h : whenEmpty.rebind f = whenEmpty) (nodes : List Node) :
    (collapse whenEmpty nodes).rebind f = collapse whenEmpty (nodes.map (Node.rebind f)) := by
  cases nodes with
  | nil => exact h
  | cons first others =>
      cases others with
      | nil => rfl
      | cons second others =>
          show (Node.sequence (first :: second :: others)).rebind f = _
          rw [Node.rebind, rebindAll_eq_map]
          rfl

/-- A phrase stands for the same trees with another provider in their random nodes. -/
theorem Derives.rebind {ρ : ProviderId} {d : Nat} {k : Category} {ts rest : List Token}
    {nodes : List Node} (h : Derives ρ d k ts nodes rest) :
    Derives (f ρ) d k ts (nodes.map (Node.rebind f)) rest := by
  induction h with
  | none => exact .none
  | semicolon mark _ ih => exact .semicolon mark ih
  | cons _ _ first others => exact .cons first others
  | declare word target ends => exact .declare word target ends
  | declareAs word target sign _ ih => exact .declareAs word target sign ih
  | ifThen word opening _ closing _ ends test branch =>
      exact .ifThen word opening test closing branch ends
  | ifElse word opening _ closing _ separator other _ test branch alternative =>
      exact .ifElse word opening test closing branch separator other alternative
  | block opening _ closing ih =>
      rw [List.map_singleton, collapse_rebind rfl]
      exact .block opening ih closing
  | assign target plain kind sign _ ih => exact .assign target plain kind sign ih
  | evaluate _ plain ih => exact .evaluate ih plain
  | plain _ ends ih => exact .plain ih ends
  | choice _ question _ colon _ test left right => exact .choice test question left colon right
  | layer _ ends ih => exact .layer ih ends
  | first _ ih => exact .first ih
  | next _ kind sign _ operands operand =>
      rw [List.map_singleton, kind.rebind]
      exact .next operands kind sign operand
  | uncompared _ ends ih => exact .uncompared ih ends
  | compared _ kind sign _ smaller larger => exact .compared smaller kind sign larger
  | base _ ends ih => exact .base ih ends
  | power _ sign _ raised power => exact .power raised sign power
  | unsigned _ ih => exact .unsigned ih
  | signed kind sign _ ih =>
      rw [List.map_singleton, kind.rebind]
      exact .signed kind sign ih
  | group opening _ closing ih => exact .group opening ih closing
  | number literal => exact .number literal
  | read target ends => exact .read target ends
  | callEmpty callee opening closing call => exact .callEmpty callee opening closing call.rebind
  | call callee opening _ closing call ih => exact .call callee opening ih closing call.rebind
  | last _ ih => exact .last ih
  | more _ comma _ argument others => exact .more argument comma others

end Grammar

/-! ## Texts -/

namespace Formula

open Grammar

/-- The formula with other providers in its random nodes. -/
def rebind (g : ProviderId → ProviderId) (formula : Formula) : Formula :=
  { formula with root := formula.root.rebind g }

/-- A text that is read with another provider has the same formula with that one in its random
nodes. -/
theorem parse_rebind {ρ : ProviderId} {source : Text} {formula : Formula}
    (h : parse ρ source = .ok formula) : parse (f ρ) source = .ok (formula.rebind f) := by
  obtain ⟨tokens, htokens⟩ := tokenize_of_parseWithin h
  obtain ⟨d, hd, nodes, hder, rfl⟩ := (parseWithin_eq_ok_iff htokens).mp h
  refine (parseWithin_eq_ok_iff htokens).mpr ⟨d, hd, _, hder.rebind, ?_⟩
  have hnames : Node.mentionsAll (nodes.map (Node.rebind f)) = Node.mentionsAll nodes :=
    Node.mentionsAll_map_rebind fun node _ => node.mentions_rebind
  rw [rebind, collapse_rebind rfl, Scope.visitAll_eq_foldl, Scope.visitAll_eq_foldl, hnames]

/-- Putting the provider of a text into all random nodes of its formula changes nothing. -/
theorem rebind_of_parse {ρ : ProviderId} {source : Text} {formula : Formula}
    (h : parse ρ source = .ok formula) : formula.rebind (fun _ => ρ) = formula := by
  have hself := parse_rebind (f := fun _ => ρ) h
  rw [h] at hself
  exact (Except.ok.inj hself).symm

/-- A tree draws from no provider but the one that its text was read with. -/
theorem drawsFrom_of_parse {ρ id : ProviderId} {source : Text} {formula : Formula}
    (h : parse ρ source = .ok formula) (hid : formula.root.DrawsFrom id) : id = ρ := by
  rw [← rebind_of_parse h] at hid
  obtain ⟨own, -, hown⟩ := Node.drawsFrom_rebind_iff.mp hid
  exact hown.symm

end Formula

end Formulary
