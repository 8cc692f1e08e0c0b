import Formulary.Proofs.Grammar.Names
import Formulary.Proofs.Tree.Basic

/-!
# The names that a tree mentions

The names in a tree in the order of its text, each with what is done to it. Whatever is collected
from the names in passing is a fold over this list, so that facts about it need no walk of the tree.

- `Node.mentions` is the list.
- `Scope.visit_eq_foldl` says that the pass over a tree is the fold over its mentions.
- `Scope.mem_locals_foldl` and `Scope.known_of_read` say which names are local or inputs behind it.
-/

namespace Formulary

/-- A name and what is done to it. -/
inductive Mention where
  /-- Its value is read. -/
  | read (name : Text)
  /-- It is declared or assigned. -/
  | bind (name : Text)
  deriving DecidableEq, Repr

namespace Node

mutual

/-- The names in a tree, in the order in which a reader of the text meets them. -/
def mentions : Node → List Mention
  | .constant _ => []
  | .read name => [.read name]
  | .negate operand => operand.mentions
  | .not operand => operand.mentions
  | .arithmetic _ left right => left.mentions ++ right.mentions
  | .comparison _ left right => left.mentions ++ right.mentions
  | .logical _ left right => left.mentions ++ right.mentions
  | .choice condition whenTrue whenFalse =>
    condition.mentions ++ whenTrue.mentions ++ whenFalse.mentions
  | .ifThen condition body => condition.mentions ++ body.mentions
  | .ifElse condition body otherwise => condition.mentions ++ body.mentions ++ otherwise.mentions
  | .declare name => [.bind name]
  | .declareAs name initializer => .bind name :: initializer.mentions
  | .assign _ name value => value.mentions ++ [.bind name]
  | .sequence statements => mentionsAll statements
  | .empty => []
  | .mathCall _ argument => argument.mentions
  | .multiCall _ arguments => mentionsAll arguments
  | .randomValue _ => []
  | .randomInteger _ bound => bound.mentions
  | .randomBelow _ bound => bound.mentions

/-- The names in several trees. -/
def mentionsAll : List Node → List Mention
  | [] => []
  | node :: rest => node.mentions ++ mentionsAll rest

end

@[simp] theorem mentionsAll_nil : mentionsAll [] = [] := by rw [mentionsAll]

@[simp] theorem mentionsAll_cons (node : Node) (rest : List Node) :
    mentionsAll (node :: rest) = node.mentions ++ mentionsAll rest := by rw [mentionsAll]

theorem mem_mentionsAll {m : Mention} {nodes : List Node} :
    m ∈ mentionsAll nodes ↔ ∃ node ∈ nodes, m ∈ node.mentions := by
  induction nodes with
  | nil => simp
  | cons node rest ih => simp [ih]

/-- A tree mentions what the trees below it mention. -/
theorem mentions_of_child {child node : Node} {m : Mention} (h : child ∈ node.children)
    (hm : m ∈ child.mentions) : m ∈ node.mentions := by
  cases node with
  | constant | read | declare | empty | randomValue => exact nomatch h
  | sequence | multiCall =>
      rw [mentions]
      exact mem_mentionsAll.mpr ⟨child, h, hm⟩
  | _ =>
      simp only [children, List.mem_cons, List.not_mem_nil, or_false] at h
      rcases h with rfl | rfl | rfl <;> simp [mentions, hm]

/-- Statements in one tree mention what the statements mention. -/
theorem mentions_collapse {whenEmpty : Node} (h : whenEmpty.mentions = []) (nodes : List Node) :
    (Grammar.collapse whenEmpty nodes).mentions = mentionsAll nodes := by
  match nodes with
  | [] => rw [Grammar.collapse, h, mentionsAll_nil]
  | [node] => rw [Grammar.collapse, mentionsAll_cons, mentionsAll_nil, List.append_nil]
  | _ :: _ :: _ => simp [Grammar.collapse, mentions]

end Node

namespace Scope

/-- The scope after one mention. -/
def note (s : Scope) : Mention → Scope
  | .read name => s.use name
  | .bind name => s.bind name

theorem visitAll_eq_foldl_of {nodes : List Node}
    (h : ∀ node ∈ nodes, ∀ s : Scope, s.visit node = node.mentions.foldl note s) (s : Scope) :
    s.visitAll nodes = (Node.mentionsAll nodes).foldl note s := by
  induction nodes generalizing s with
  | nil => simp
  | cons node rest ih =>
      rw [visitAll_cons, Node.mentionsAll_cons, List.foldl_append, h node (by simp)]
      exact ih (fun n hn => h n (by simp [hn])) _

/-- The pass over a tree takes its mentions one by one. -/
theorem visit_eq_foldl (node : Node) : ∀ s : Scope, s.visit node = node.mentions.foldl note s := by
  induction node using Node.induction_children with
  | step node ih =>
      intro s
      cases node with
      | sequence | multiCall =>
          rw [visit, Node.mentions]
          exact visitAll_eq_foldl_of ih s
      | _ => simp_all [visit, Node.mentions, Node.children, note]

theorem visitAll_eq_foldl (nodes : List Node) (s : Scope) :
    s.visitAll nodes = (Node.mentionsAll nodes).foldl note s :=
  visitAll_eq_foldl_of (fun node _ => visit_eq_foldl node) s

theorem locals_use (s : Scope) (name : Text) : (s.use name).locals = s.locals := by
  rw [use]
  split <;> rfl

theorem mem_inputs_use {s : Scope} {name other : Text} :
    other ∈ (s.use name).inputs
      ↔ other ∈ s.inputs ∨ other = name ∧ name ∉ s.locals := by
  rw [use]
  split
  · grind
  · grind

/-- The local names behind some mentions are those before them and the ones that are bound. -/
theorem mem_locals_foldl {name : Text} (ms : List Mention) (s : Scope) :
    name ∈ (ms.foldl note s).locals ↔ name ∈ s.locals ∨ .bind name ∈ ms := by
  induction ms generalizing s with
  | nil => simp
  | cons m ms ih =>
      rw [List.foldl_cons, ih]
      cases m with
      | read other => simp [note, locals_use]
      | bind other => simp [note, bind, or_assoc, or_left_comm]

/-- An input stays an input. -/
theorem mem_inputs_foldl_of {name : Text} (ms : List Mention) {s : Scope} (h : name ∈ s.inputs) :
    name ∈ (ms.foldl note s).inputs := by
  induction ms generalizing s with
  | nil => exact h
  | cons m ms ih =>
      refine ih ?_
      cases m with
      | read other => exact mem_inputs_use.mpr (.inl h)
      | bind other => exact h

/-- A name that is read is local or an input from then on. -/
theorem known_of_read {name : Text} {ms : List Mention} {s : Scope} (h : .read name ∈ ms) :
    name ∈ (ms.foldl note s).locals ∨ name ∈ (ms.foldl note s).inputs := by
  induction ms generalizing s with
  | nil => exact nomatch h
  | cons m ms ih =>
      rw [List.foldl_cons]
      rcases List.mem_cons.mp h with rfl | h
      · by_cases hlocal : name ∈ s.locals
        · exact .inl ((mem_locals_foldl ms _).mpr (.inl (by rwa [note, locals_use])))
        · exact .inr (mem_inputs_foldl_of ms (mem_inputs_use.mpr (.inr ⟨rfl, hlocal⟩)))
      · exact ih h

/-- What is an input behind some mentions that start in a scope `s`: the inputs of `s`, then those
that the mentions have by themselves as far as `s` does not know them. -/
theorem inputs_foldl (s : Scope) (ms : List Mention) :
    (ms.foldl note s).inputs = s.inputs
      ++ (ms.foldl note empty).inputs.filter (fun name => name ∉ s.locals ∧ name ∉ s.inputs) := by
  -- two scopes at the same mention, one of which started in `s`
  suffices h : ∀ a b : Scope, (∀ name, name ∈ a.locals ↔ name ∈ s.locals ∨ name ∈ b.locals) →
      a.inputs = s.inputs ++ b.inputs.filter (fun name => name ∉ s.locals ∧ name ∉ s.inputs) →
      (ms.foldl note a).inputs = s.inputs ++ (ms.foldl note b).inputs.filter
        (fun name => name ∉ s.locals ∧ name ∉ s.inputs) from
    h s empty (by simp [empty]) (by simp [empty])
  induction ms with
  | nil => exact fun a b _ hinputs => hinputs
  | cons m ms ih =>
      intro a b hlocals hinputs
      rw [List.foldl_cons, List.foldl_cons]
      cases m with
      | bind name =>
          refine ih _ _ (fun other => ?_) hinputs
          simp only [note, bind, List.mem_cons, hlocals]
          exact or_left_comm
      | read name =>
          refine ih _ _ (fun other => ?_) ?_
          · rw [note, note, locals_use, locals_use]
            exact hlocals other
          · have hmem : ∀ other, other ∈ a.inputs
                ↔ other ∈ s.inputs ∨ other ∈ b.inputs ∧ other ∉ s.locals ∧ other ∉ s.inputs := by
              intro other
              simp [hinputs]
            simp only [note, use, hlocals, hmem]
            by_cases hb : name ∈ b.locals ∨ name ∈ b.inputs
            · rw [if_pos hb, if_pos (by grind), hinputs]
            · rw [if_neg hb]
              by_cases hs : name ∈ s.locals ∨ name ∈ s.inputs
              · have hout : [name].filter (fun n => n ∉ s.locals ∧ n ∉ s.inputs) = [] :=
                  List.filter_cons_of_neg (by simpa [Classical.or_iff_not_imp_left] using hs)
                rw [if_pos (by grind), hinputs, List.filter_append, hout, List.append_nil]
              · have hin : [name].filter (fun n => n ∉ s.locals ∧ n ∉ s.inputs) = [name] :=
                  List.filter_cons_of_pos (by simpa using hs)
                rw [if_neg (by grind), hinputs, List.filter_append, hin, List.append_assoc]

end Scope

end Formulary
