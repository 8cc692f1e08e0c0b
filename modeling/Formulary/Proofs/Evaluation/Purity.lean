import Formulary.Proofs.Evaluation.DefiniteAssignment
import Formulary.Proofs.Evaluation.Locality
import Formulary.Proofs.Grammar.Tables

/-!
# Statements and values keep apart

One type holds statements and expressions alike, and the evaluation of either may change a context.
In the tree of a text, what changes a context stands where a statement may stand. So values are
computed without a trace: operands may be evaluated in any place of a context's life.

- `Node.branches` and `Node.operands` are the two sorts of trees right below a node, and
  `Node.AtStatement` and `Node.AtExpression` the positions that they lead to.
- `Node.IsStatement.of_occurs` and `Node.IsStatement.isExpression_at` carry the shape of a tree to
  its parts.
- `Evaluation.Uses.context_eq` says that what writes no name leaves the context as it was.
- `Formula.parse_wellFormed` is the statement about the trees of texts.
-/

namespace Formulary

variable {ρ : ProviderId}

namespace Node

/-! ## Positions -/

/-- The trees right below a node that are run as statements. -/
def branches : Node → List Node
  | .ifThen _ body => [body]
  | .ifElse _ body otherwise => [body, otherwise]
  | .sequence statements => statements
  | _ => []

/-- The trees right below a node whose values it uses: operands, conditions, arguments, first values
and assigned values. -/
def operands : Node → List Node
  | .ifThen condition _ => [condition]
  | .ifElse condition _ _ => [condition]
  | .sequence _ => []
  | node => node.children

/-- The children of a node are its operands and its branches. -/
theorem mem_children_iff {child node : Node} :
    child ∈ node.children ↔ child ∈ node.operands ∨ child ∈ node.branches := by
  cases node with
  | ifThen | ifElse | sequence => simp [children, operands, branches]
  | _ => simp [operands, branches]

/-- A part in the position of a statement: the whole tree, or reached through branches alone. -/
inductive AtStatement (part : Node) : Node → Prop where
  | here : AtStatement part part
  | inside {child node : Node} (mem : child ∈ node.branches) (position : AtStatement part child) :
      AtStatement part node

/-- A part in the position of an expression: an operand of some node, or below one. -/
inductive AtExpression (part : Node) : Node → Prop where
  | operand {child node : Node} (mem : child ∈ node.operands) (occurs : part.Occurs child) :
      AtExpression part node
  | inside {child node : Node} (mem : child ∈ node.branches) (position : AtExpression part child) :
      AtExpression part node

/-- Every part stands in one of the two positions. -/
theorem Occurs.position {part node : Node} (h : part.Occurs node) :
    part.AtStatement node ∨ part.AtExpression node := by
  induction h with
  | here => exact .inl .here
  | inside mem occurs ih =>
      rcases mem_children_iff.mp mem with hoperand | hbranch
      · exact .inr (.operand hoperand occurs)
      · exact ih.imp (.inside hbranch) (.inside hbranch)

/-! ## Forms of nodes -/

/-- A node that writes a name or runs statements. -/
def isStatementForm : Node → Bool
  | .ifThen _ _ => true
  | .ifElse _ _ _ => true
  | .declare _ => true
  | .declareAs _ _ => true
  | .assign _ _ _ => true
  | .sequence _ => true
  | .empty => true
  | _ => false

/-- What is asked of a node by itself: a sequence has several statements, a call goes by the name of
a function of its kind and has arguments, and words of the language are not assigned to. -/
def WellFormed : Node → Prop
  | .sequence statements => 2 ≤ statements.length
  | .mathCall function _ => Callee.ofName? function.name = some (.math function)
  | .multiCall function arguments =>
    Callee.ofName? function.name = some (.multi function) ∧ 1 ≤ arguments.length
  | .assign _ name _ => name ≠ Text.ofString "let" ∧ name ≠ Text.ofString "if"
  | _ => True

theorem IsExpression.isStatementForm_eq_false {x : Node} (h : x.IsExpression) :
    x.isStatementForm = false := by
  cases h <;> rfl

/-- An expression is well formed wherever it stands. -/
theorem IsExpression.wellFormed {x : Node} (h : x.IsExpression) : x.WellFormed := by
  cases h with
  | mathCall => exact Callee.ofName?_name (.math _)
  | multiCall nonempty => exact ⟨Callee.ofName?_name (.multi _), List.length_pos_iff.mpr nonempty⟩
  | _ => trivial

/-- A statement is well formed, with all that it consists of. -/
theorem IsStatement.wellFormed {x : Node} (h : x.IsStatement) : x.WellFormed := by
  cases h with
  | expression value => exact value.wellFormed
  | sequence several => exact several
  | assign plain =>
      exact ⟨fun heq => plain.1 (decide_eq_true (congrArg Lexeme.name heq)),
        fun heq => plain.2 (decide_eq_true (congrArg Lexeme.name heq))⟩
  | _ => trivial

/-! ## The shape of parts -/

/-- The parts right below an expression are expressions. -/
theorem IsExpression.child {child node : Node} (h : node.IsExpression)
    (hc : child ∈ node.children) : child.IsExpression := by
  cases h with
  | constant | read | randomValue => exact nomatch hc
  | multiCall _ arguments => exact arguments child hc
  | _ =>
      simp only [children, List.mem_cons, List.not_mem_nil, or_false] at hc
      rcases hc with rfl | rfl | rfl <;> assumption

/-- All parts of an expression are expressions. -/
theorem IsExpression.of_occurs {part node : Node} (h : node.IsExpression)
    (hpart : part.Occurs node) : part.IsExpression := by
  induction hpart with
  | here => exact h
  | inside mem _ ih => exact ih (h.child mem)

/-- The operands of a statement are expressions. -/
theorem IsStatement.operand {child node : Node} (h : node.IsStatement)
    (hc : child ∈ node.operands) : child.IsExpression := by
  cases h with
  | expression value => exact value.child (mem_children_iff.mpr (.inl hc))
  | ifThen condition | ifElse condition | declareAs condition | assign _ condition =>
      rwa [List.mem_singleton.mp hc]
  | declare | sequence | empty => exact nomatch hc

/-- The branches of a statement are statements. -/
theorem IsStatement.branch {child node : Node} (h : node.IsStatement)
    (hc : child ∈ node.branches) : child.IsStatement := by
  cases h with
  | expression value => exact .expression (value.child (mem_children_iff.mpr (.inr hc)))
  | ifThen _ body => rwa [List.mem_singleton.mp hc]
  | ifElse _ body otherwise =>
      rcases List.mem_cons.mp hc with rfl | hc
      · exact body
      · rwa [List.mem_singleton.mp hc]
  | sequence _ statements => exact statements child hc
  | declare | declareAs | assign | empty => exact nomatch hc

/-- The parts of a statement are statements, expressions among them. -/
theorem IsStatement.of_occurs {part node : Node} (h : node.IsStatement)
    (hpart : part.Occurs node) : part.IsStatement := by
  induction hpart with
  | here => exact h
  | inside mem _ ih =>
      rcases mem_children_iff.mp mem with hoperand | hbranch
      · exact ih (.expression (h.operand hoperand))
      · exact ih (h.branch hbranch)

/-- What stands in the position of an expression is one. -/
theorem IsStatement.isExpression_at {part node : Node} (h : node.IsStatement)
    (hpart : part.AtExpression node) : part.IsExpression := by
  induction hpart with
  | operand mem occurs => exact (h.operand mem).of_occurs occurs
  | inside mem _ ih => exact ih (h.branch mem)

end Node

/-! ## Evaluation without a trace -/

variable {σ : Type} [RandomProvider σ]

/-- An evaluation that writes no name leaves the context as it was, also if it fails. -/
theorem Evaluation.Uses.context_eq {R W : Text → Prop} {α : Type} {x : Evaluation σ α}
    (h : Uses R W x) (hW : ∀ name, ¬ W name) (m : Machine σ) :
    (behind (x m)).context = m.context := by
  induction h generalizing m with
  | pure => rfl
  | @bind α β x f _ _ ihx ihf =>
      have hx := ihx m
      rw [bind_apply]
      generalize x m = r at hx
      cases r with
      | ok a m' => exact (ihf a m').trans hx
      | error e m' => exact hx
  | @read name =>
      rw [Evaluation.read]
      cases m.context.get? name <;> rfl
  | readOrZero => rfl
  | write mem => exact absurd mem (hW _)
  | draw => rfl

/-- An expression leaves the context as it was, whether it fails or not. -/
theorem Node.IsExpression.context_run {x : Node} (h : x.IsExpression) (context : Context)
    (sources : Sources σ) : (x.run context sources).context = context := by
  have hcontext := x.evaluate_uses.context_eq h.bind_not_mem_mentions ⟨context, sources, []⟩
  rw [Node.run]
  generalize x.evaluate ⟨context, sources, []⟩ = r at hcontext
  cases r with
  | ok a m => exact hcontext
  | error e m => exact hcontext

namespace Formula

/-- In the tree of a text, what writes names or runs statements stands in the position of a
statement, every node is well formed, and the evaluation of what stands in the position of an
expression leaves any context as it was, whether it succeeds or fails. -/
theorem parse_wellFormed {source : Text} {f : Formula} (hf : parse ρ source = .ok f) (part : Node) :
    (part.Occurs f.root → part.WellFormed
        ∧ (part.isStatementForm = true → part.AtStatement f.root ∧ ¬ part.AtExpression f.root))
      ∧ (part.AtExpression f.root → ∀ (context : Context) (sources : Sources σ),
        (part.run context sources).context = context) := by
  have hroot := (inputs_of_parse hf).1
  refine ⟨fun hpart => ⟨(hroot.of_occurs hpart).wellFormed, fun hform => ?_⟩, fun hpart => ?_⟩
  · have hnot : ¬ part.AtExpression f.root := by
      intro hat
      rw [(hroot.isExpression_at hat).isStatementForm_eq_false] at hform
      exact Bool.noConfusion hform
    exact ⟨hpart.position.resolve_right hnot, hnot⟩
  · exact (hroot.isExpression_at hpart).context_run

/-- The argument of a call in a first value reads a missing name: it fails, and the context in which
it does is the one that it was given. The empty block is a branch. -/
theorem parse_wellFormed_argument :
    ∃ f, parse ⟨0⟩ (Text.ofString "if(a)let x=-max(b);else\x7b\x7d") = .ok f
      ∧ (Node.read (Text.ofString "b")).AtExpression f.root
      ∧ ((Node.read (Text.ofString "b")).run ⟨[(Text.ofString "a", 1)]⟩
          (.own fun _ => FixedFraction.half)).outcome = .error (.missingVariable (Text.ofString "b"))
      ∧ ((Node.read (Text.ofString "b")).run ⟨[(Text.ofString "a", 1)]⟩
          (.own fun _ => FixedFraction.half)).context = ⟨[(Text.ofString "a", 1)]⟩
      ∧ Node.empty.AtStatement f.root ∧ ¬ Node.empty.AtExpression f.root := by
  have hf : parse ⟨0⟩ (Text.ofString "if(a)let x=-max(b);else\x7b\x7d")
      = .ok ⟨Text.ofString "if(a)let x=-max(b);else\x7b\x7d",
        .ifElse (.read (Text.ofString "a"))
          (.declareAs (Text.ofString "x")
            (.negate (.multiCall .max [.read (Text.ofString "b")]))) .empty,
        ["a", "b"].map Text.ofString⟩ := rfl
  have hat : (Node.read (Text.ofString "b")).AtExpression (.ifElse (.read (Text.ofString "a"))
      (.declareAs (Text.ofString "x")
        (.negate (.multiCall .max [.read (Text.ofString "b")]))) .empty) := by
    refine .inside (.head _) (.operand (.head _) (.inside (.head _) ?_))
    exact .inside (.head _) .here
  have hempty := (parse_wellFormed (σ := FixedFraction) hf .empty).1
    (.inside (.tail _ (.tail _ (.head _))) .here)
  exact ⟨_, hf, hat, rfl, (parse_wellFormed hf _).2 hat _ _, hempty.2 rfl⟩

end Formula

end Formulary
