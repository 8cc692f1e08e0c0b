import Formulary.Proofs.Grammar.Derivation

/-!
# The shape of trees

One type holds statements and expressions alike, but the grammar keeps them apart: nothing that
writes a name or runs statements stands below an operator, a call, a condition or a value.

- `Node.IsExpression` and `Node.IsStatement` are the two shapes.
- `Grammar.Derives.fits` says that every phrase stands for trees of the shape of its kind.
-/

namespace Formulary

variable {ρ : ProviderId}

namespace Node

/-- A tree of operators and calls, each call with arguments of the number that it takes. -/
inductive IsExpression : Node → Prop where
  | constant (value : Number) : IsExpression (.constant value)
  | read (name : Text) : IsExpression (.read name)
  | negate {x : Node} (operand : IsExpression x) : IsExpression (.negate x)
  | not {x : Node} (operand : IsExpression x) : IsExpression (.not x)
  | arithmetic {op : ArithmeticOp} {x y : Node} (left : IsExpression x) (right : IsExpression y) :
      IsExpression (.arithmetic op x y)
  | comparison {op : ComparisonOp} {x y : Node} (left : IsExpression x) (right : IsExpression y) :
      IsExpression (.comparison op x y)
  | logical {op : LogicalOp} {x y : Node} (left : IsExpression x) (right : IsExpression y) :
      IsExpression (.logical op x y)
  | choice {c x y : Node} (condition : IsExpression c) (whenTrue : IsExpression x)
      (whenFalse : IsExpression y) : IsExpression (.choice c x y)
  | mathCall {f : MathFunction} {x : Node} (argument : IsExpression x) :
      IsExpression (.mathCall f x)
  | multiCall {f : MultiFunction} {xs : List Node} (nonempty : xs ≠ [])
      (arguments : ∀ x ∈ xs, IsExpression x) : IsExpression (.multiCall f xs)
  | randomValue {ρ : ProviderId} : IsExpression (.randomValue ρ)
  | randomInteger {ρ : ProviderId} {x : Node} (bound : IsExpression x) :
      IsExpression (.randomInteger ρ x)
  | randomBelow {ρ : ProviderId} {x : Node} (bound : IsExpression x) :
      IsExpression (.randomBelow ρ x)

/-- An expression, or a tree that writes names or runs statements; a sequence has at least two
statements, and words of the language are not assigned to. -/
inductive IsStatement : Node → Prop where
  | expression {x : Node} (value : IsExpression x) : IsStatement x
  | ifThen {c x : Node} (condition : IsExpression c) (body : IsStatement x) :
      IsStatement (.ifThen c x)
  | ifElse {c x y : Node} (condition : IsExpression c) (body : IsStatement x)
      (otherwise : IsStatement y) : IsStatement (.ifElse c x y)
  | declare (name : Text) : IsStatement (.declare name)
  | declareAs {name : Text} {x : Node} (initializer : IsExpression x) :
      IsStatement (.declareAs name x)
  | assign {op : AssignmentOp} {name : Text} {x : Node}
      (plain : ¬ (Lexeme.name name).isLet ∧ ¬ (Lexeme.name name).isIf) (value : IsExpression x) :
      IsStatement (.assign op name x)
  | sequence {xs : List Node} (several : 2 ≤ xs.length) (statements : ∀ x ∈ xs, IsStatement x) :
      IsStatement (.sequence xs)
  | empty : IsStatement .empty

/-- The shape of the trees that a kind of phrase stands for. -/
def Fits : Grammar.Category → Node → Prop
  | .statements | .statement => IsStatement
  | _ => IsExpression

theorem fits_operand {l : Grammar.Layer} {x : Node} : x.Fits l.operand ↔ x.IsExpression := by
  cases l <;> rfl

/-- Statements in one tree are a statement. -/
theorem IsStatement.collapse {whenEmpty : Node} (hempty : whenEmpty.IsStatement) {xs : List Node}
    (h : ∀ x ∈ xs, x.IsStatement) : (Grammar.collapse whenEmpty xs).IsStatement := by
  match xs, h with
  | [], _ => exact hempty
  | [x], h => exact h x (by simp)
  | x :: y :: zs, h => exact .sequence (by simp) h

end Node

namespace Grammar

theorem Layer.Builds.isExpression {l : Layer} {op : Operator} {build : Node → Node → Node}
    (h : l.Builds op build) {x y : Node} (hx : x.IsExpression) (hy : y.IsExpression) :
    (build x y).IsExpression := by
  cases h with
  | or | and => exact .logical hx hy
  | plus | minus | times | divide | percent => exact .arithmetic hx hy

theorem Signs.isExpression {op : Operator} {build : Node → Node} (h : Signs op build) {x : Node}
    (hx : x.IsExpression) : (build x).IsExpression := by
  cases h with
  | minus => exact .negate hx
  | plus => exact hx
  | not => exact .not hx

theorem Calls.isExpression {name : Text} {xs : List Node} {node : Node} (h : Calls ρ name xs node)
    (hxs : ∀ x ∈ xs, x.IsExpression) : node.IsExpression := by
  cases h with
  | math f x => exact .mathCall (hxs x (by simp))
  | multi f first others => exact .multiCall (by simp) hxs
  | randomValue => exact .randomValue
  | randomInteger x => exact .randomInteger (hxs x (by simp))
  | randomBelow x => exact .randomBelow (hxs x (by simp))

/-- A phrase stands for trees of the shape of its kind. -/
theorem Derives.fits {d : Nat} {k : Category} {ts rest : List Token} {nodes : List Node}
    (h : Derives ρ d k ts nodes rest) : ∀ node ∈ nodes, node.Fits k := by
  induction h with
  | none => exact fun _ h => nomatch h
  | semicolon _ _ ih => exact ih
  | cons _ _ ih ihs => exact List.forall_mem_cons.mpr ⟨ih _ (by simp), ihs⟩
  | declare => exact List.forall_mem_singleton.mpr (.declare _)
  | declareAs _ _ _ _ ih => exact List.forall_mem_singleton.mpr (.declareAs (ih _ (by simp)))
  | ifThen _ _ _ _ _ _ ihc ihx =>
      exact List.forall_mem_singleton.mpr (.ifThen (ihc _ (by simp)) (ihx _ (by simp)))
  | ifElse _ _ _ _ _ _ _ _ ihc ihx ihy =>
      exact List.forall_mem_singleton.mpr
        (.ifElse (ihc _ (by simp)) (ihx _ (by simp)) (ihy _ (by simp)))
  | block _ _ _ ih => exact List.forall_mem_singleton.mpr (Node.IsStatement.collapse .empty ih)
  | assign target plain _ _ _ ih =>
      rw [target] at plain
      exact List.forall_mem_singleton.mpr (.assign plain (ih _ (by simp)))
  | evaluate _ _ ih => exact List.forall_mem_singleton.mpr (.expression (ih _ (by simp)))
  | plain _ _ ih | layer _ _ ih | uncompared _ _ ih | base _ _ ih => exact ih
  | unsigned _ ih | group _ _ _ ih | last _ ih => exact ih
  | choice _ _ _ _ _ ihc ihx ihy =>
      exact List.forall_mem_singleton.mpr
        (.choice (ihc _ (by simp)) (ihx _ (by simp)) (ihy _ (by simp)))
  | first _ ih => exact List.forall_mem_singleton.mpr (Node.fits_operand.mp (ih _ (by simp)))
  | next _ kind _ _ ihx ihy =>
      exact List.forall_mem_singleton.mpr
        (kind.isExpression (ihx _ (by simp)) (Node.fits_operand.mp (ihy _ (by simp))))
  | compared _ _ _ _ ihx ihy =>
      exact List.forall_mem_singleton.mpr (.comparison (ihx _ (by simp)) (ihy _ (by simp)))
  | power _ _ _ ihx ihy =>
      exact List.forall_mem_singleton.mpr (.arithmetic (ihx _ (by simp)) (ihy _ (by simp)))
  | signed kind _ _ ih => exact List.forall_mem_singleton.mpr (kind.isExpression (ih _ (by simp)))
  | number => exact List.forall_mem_singleton.mpr (.constant _)
  | read => exact List.forall_mem_singleton.mpr (.read _)
  | callEmpty _ _ _ call =>
      exact List.forall_mem_singleton.mpr (call.isExpression fun _ h => nomatch h)
  | call _ _ _ _ call ih => exact List.forall_mem_singleton.mpr (call.isExpression ih)
  | more _ _ _ ih ihs => exact List.forall_mem_cons.mpr ⟨ih _ (by simp), ihs⟩

end Grammar

end Formulary
