import Formulary.Proofs.Evaluation.Footprint
import Formulary.Proofs.Tree.Paths

/-!
# How an evaluation goes through a tree

The trees right below a node are evaluated one behind the other, each in the state that the one before
it leaves. Some are left out: the right operand that the left one decides, the branch that is not
taken, and whatever comes behind a failure.

- `Node.turns` are the states in which the trees right below a node are evaluated, and `Node.reached`
  is the state in which an evaluation comes to a place.
- `Node.Skips` lists why a tree is left out, and `Node.Skips.turns` says that it has no turn then.
- `Node.evaluate_error` says where a failure comes from.
-/

namespace Formulary

/-! ## Steps that do not fail -/

namespace Evaluation

variable {σ α β : Type}

/-- A step that fails in no state. -/
def Total (x : Evaluation σ α) : Prop := ∀ m e m', x m ≠ .error e m'

namespace Total

theorem pure (a : α) : Total (Pure.pure a : Evaluation σ α) := nofun

theorem write (name : Text) (value : Number) :
    Total (Evaluation.write name value : Evaluation σ Number) := nofun

theorem draw [RandomProvider σ] (bound : ProviderId) (request : Draw) :
    Total (Evaluation.draw bound request : Evaluation σ Number) := nofun

/-- An assignment does not fail, even where the name has no value yet. -/
theorem assign (op : AssignmentOp) (name : Text) (value : Number) :
    Total (Evaluation.assign op name value : Evaluation σ Number) := by
  rw [Evaluation.assign]
  cases op.arithmetic? with
  | none => exact write name value
  | some arithmetic =>
      intro m e m' h
      cases h

theorem ite {c : Prop} [Decidable c] {x y : Evaluation σ α} (hx : Total x) (hy : Total y) :
    Total (if c then x else y) := by
  split
  · exact hx
  · exact hy

/-- What fails behind which no step fails has failed itself. -/
theorem eq_error {x : Evaluation σ α} {f : α → Evaluation σ β} (hf : ∀ a, Total (f a))
    {m m' : Machine σ} {e : EvaluationError} (h : (x >>= f) m = .error e m') : x m = .error e m' := by
  rcases bind_eq_error_iff.mp h with hx | ⟨a, m₁, -, hlast⟩
  · exact hx
  · exact absurd hlast (hf a m₁ e m')

end Total

end Evaluation

variable {σ : Type} [RandomProvider σ]

namespace Node

/-- The state behind a tree, if its value passes a test. -/
def next (test : Number → Bool) (node : Node) (m : Machine σ) : Option (Machine σ) :=
  match node.evaluate m with
  | .ok value m' => if test value then some m' else none
  | .error _ _ => none

/-- The states in which trees are evaluated that stand in a row, as long as none fails. -/
def inTurn : List Node → Option (Machine σ) → List (Option (Machine σ))
  | [], _ => []
  | node :: rest, m => m :: inTurn rest (m.bind (node.next fun _ => true))

/-- The states in which the trees right below a node are evaluated, where they are. -/
def turns : Node → Machine σ → List (Option (Machine σ))
  | .logical .and left _, m => [some m, left.next Number.isTruthy m]
  | .logical .or left _, m => [some m, left.next (fun x => !x.isTruthy) m]
  | .choice condition _ _, m | .ifElse condition _ _, m =>
    [some m, condition.next Number.isTruthy m, condition.next (fun x => !x.isTruthy) m]
  | .ifThen condition _, m => [some m, condition.next Number.isTruthy m]
  | node, m => inTurn node.children (some m)

/-- The tree at a place and the state in which it is evaluated, if it is. -/
def reached (node : Node) (m : Machine σ) : Path → Option (Node × Machine σ)
  | [] => some (node, m)
  | i :: path =>
    node.children[i]?.bind fun child => (node.turns m)[i]?.join.bind fun m' => child.reached m' path

/-- A tree right below a node is left out: the left operand decides, the branch is not taken, or a
tree further left fails. -/
inductive Skips : Node → Machine σ → Nat → Prop where
  | and {left right : Node} {m m' : Machine σ} {x : Number} (value : left.evaluate m = .ok x m')
      (decides : x.isTruthy = false) : Skips (.logical .and left right) m 1
  | or {left right : Node} {m m' : Machine σ} {x : Number} (value : left.evaluate m = .ok x m')
      (decides : x.isTruthy = true) : Skips (.logical .or left right) m 1
  | whenTrue {condition whenTrue whenFalse : Node} {m m' : Machine σ} {x : Number}
      (value : condition.evaluate m = .ok x m') (decides : x.isTruthy = false) :
      Skips (.choice condition whenTrue whenFalse) m 1
  | whenFalse {condition whenTrue whenFalse : Node} {m m' : Machine σ} {x : Number}
      (value : condition.evaluate m = .ok x m') (decides : x.isTruthy = true) :
      Skips (.choice condition whenTrue whenFalse) m 2
  | only {condition body : Node} {m m' : Machine σ} {x : Number}
      (value : condition.evaluate m = .ok x m') (decides : x.isTruthy = false) :
      Skips (.ifThen condition body) m 1
  | body {condition body otherwise : Node} {m m' : Machine σ} {x : Number}
      (value : condition.evaluate m = .ok x m') (decides : x.isTruthy = false) :
      Skips (.ifElse condition body otherwise) m 1
  | otherwise {condition body otherwise : Node} {m m' : Machine σ} {x : Number}
      (value : condition.evaluate m = .ok x m') (decides : x.isTruthy = true) :
      Skips (.ifElse condition body otherwise) m 2
  | failed {node child : Node} {m m' m'' : Machine σ} {i j : Nat} {e : EvaluationError}
      (further : j < i) (reached : node.reached m [j] = some (child, m'))
      (failure : child.evaluate m' = .error e m'') : Skips node m i

/-! ## Turns -/

section Turns

variable {node child : Node} {m m' : Machine σ} {test : Number → Bool} {x : Number}

/-- Behind a tree that succeeds, the next one is evaluated if the value passes the test. -/
theorem next_of_ok (h : node.evaluate m = .ok x m') :
    node.next test m = if test x then some m' else none := by
  rw [next, h]

theorem next_of_error {e : EvaluationError} (h : node.evaluate m = .error e m') :
    node.next test m = none := by
  rw [next, h]

/-- There is one turn for each tree. -/
theorem length_inTurn (nodes : List Node) (s : Option (Machine σ)) :
    (inTurn nodes s).length = nodes.length := by
  induction nodes generalizing s with
  | nil => rfl
  | cons node rest ih => rw [inTurn, List.length_cons, List.length_cons, ih]

/-- There is one turn for each child. -/
theorem length_turns (node : Node) (m : Machine σ) :
    (node.turns m).length = node.children.length := by
  cases node with
  | logical op left right => cases op <;> rfl
  | sequence statements | multiCall _ statements => exact length_inTurn statements (some m)
  | _ => rfl

/-- Behind a failure nothing is evaluated. -/
theorem inTurn_none (nodes : List Node) (i : Nat) :
    (inTurn (σ := σ) nodes none)[i]?.join = none := by
  induction nodes generalizing i with
  | nil => rfl
  | cons node rest ih =>
      cases i with
      | zero => rfl
      | succ i => exact ih i

/-- One step down. -/
theorem reached_singleton {i : Nat} :
    node.reached m [i] = some (child, m')
      ↔ node.children[i]? = some child ∧ (node.turns m)[i]? = some (some m') := by
  rw [reached, Option.bind_eq_some_iff]
  constructor
  · rintro ⟨child', hchild, hreached⟩
    obtain ⟨m₁, hturn, hplace⟩ := Option.bind_eq_some_iff.mp hreached
    cases hplace
    exact ⟨hchild, Option.join_eq_some_iff.mp hturn⟩
  · rintro ⟨hchild, hturn⟩
    exact ⟨child, hchild, by rw [hturn]; rfl⟩

/-- A place is reached by way of the places above it. -/
theorem reached_append (path path' : Path) :
    node.reached m (path ++ path')
      = (node.reached m path).bind fun place => place.1.reached place.2 path' := by
  induction path generalizing node m with
  | nil => rfl
  | cons i path ih =>
      rw [List.cons_append, reached, reached]
      cases node.children[i]? with
      | none => rfl
      | some child =>
          cases (node.turns m)[i]?.join with
          | none => rfl
          | some m' => exact ih

/-- In a row, no tree has a turn behind one that fails. -/
theorem inTurn_of_failed {nodes : List Node} {s : Option (Machine σ)} {m'' : Machine σ} {i j : Nat}
    {e : EvaluationError} (hlt : j < i) (hchild : nodes[j]? = some child)
    (hturn : (inTurn nodes s)[j]? = some (some m')) (hfails : child.evaluate m' = .error e m'') :
    (inTurn nodes s)[i]?.join = none := by
  induction nodes generalizing i j s with
  | nil => cases hchild
  | cons node rest ih =>
      cases i with
      | zero => exact absurd hlt (Nat.not_lt_zero j)
      | succ i =>
          cases j with
          | zero =>
              cases hchild
              obtain rfl : s = some m' := Option.some.inj hturn
              show (inTurn rest (child.next (fun _ => true) m'))[i]?.join = none
              rw [next_of_error hfails]
              exact inTurn_none rest i
          | succ j => exact ih (Nat.lt_of_succ_lt_succ hlt) hchild hturn

/-- A failed condition gives a branch no turn. -/
theorem branch_of_failed {condition branch : Node} {m'' : Machine σ} {i j : Nat}
    {e : EvaluationError} (hlt : j < i) (hchild : [condition, branch][j]? = some child)
    (hturn : [some m, condition.next test m][j]? = some (some m'))
    (hfails : child.evaluate m' = .error e m'') :
    [some m, condition.next test m][i]?.join = none := by
  obtain _ | _ | i := i
  · exact absurd hlt (Nat.not_lt_zero j)
  · obtain rfl : j = 0 := by omega
    cases hchild
    cases hturn
    exact next_of_error hfails
  · rfl

/-- A failed condition gives no branch a turn, and a failed branch none to the other. -/
theorem branches_of_failed {condition branch other : Node} {m'' : Machine σ} {i j : Nat}
    {e : EvaluationError} (hlt : j < i) (hchild : [condition, branch, other][j]? = some child)
    (hturn : [some m, condition.next test m, condition.next (fun x => !test x) m][j]?
      = some (some m'))
    (hfails : child.evaluate m' = .error e m'') :
    [some m, condition.next test m, condition.next (fun x => !test x) m][i]?.join = none := by
  obtain _ | _ | _ | i := i
  · exact absurd hlt (Nat.not_lt_zero j)
  · obtain rfl : j = 0 := by omega
    cases hchild
    cases hturn
    exact next_of_error hfails
  · show condition.next _ m = none
    obtain rfl | rfl : j = 0 ∨ j = 1 := by omega
    · cases hchild
      cases hturn
      exact next_of_error hfails
    · -- the first branch had its turn, so the condition does not give the second one a turn
      have hnext : condition.next test m = some m' := Option.some.inj hturn
      cases hcondition : condition.evaluate m with
      | error e m₁ => exact next_of_error hcondition
      | ok x m₁ =>
          rw [next_of_ok hcondition] at hnext ⊢
          cases htest : test x with
          | true => rfl
          | false =>
              rw [htest] at hnext
              cases hnext
  · rfl

/-- A tree that is left out has no turn. -/
theorem Skips.turns {i : Nat} (h : node.Skips m i) : (node.turns m)[i]?.join = none := by
  cases h with
  | and value decides | whenTrue value decides | only value decides | body value decides =>
      show next Number.isTruthy _ m = none
      rw [next_of_ok value, decides]
      rfl
  | or value decides | whenFalse value decides | otherwise value decides =>
      show next (fun x => !x.isTruthy) _ m = none
      rw [next_of_ok value, decides]
      rfl
  | @failed _ child _ m' m'' _ j e further reached failure =>
      obtain ⟨hchild, hturn⟩ := reached_singleton.mp reached
      cases node with
      | choice | ifElse => exact branches_of_failed further hchild hturn failure
      | ifThen => exact branch_of_failed further hchild hturn failure
      | logical op =>
          cases op with
          | and | or => exact branch_of_failed further hchild hturn failure
      | _ => exact inTurn_of_failed further hchild hturn failure

end Turns

/-! ## Failures -/

section Failures

open Evaluation

variable {node : Node} {m m' m₁ : Machine σ} {e : EvaluationError}

/-- Among trees that are evaluated in some states, one fails. -/
def FailsIn (nodes : List Node) (states : List (Option (Machine σ))) (e : EvaluationError)
    (m' : Machine σ) : Prop :=
  ∃ (i : Nat) (child : Node) (m₁ : Machine σ), nodes[i]? = some child ∧ states[i]? = some (some m₁)
    ∧ child.evaluate m₁ = .error e m'

namespace FailsIn

variable {nodes : List Node} {states : List (Option (Machine σ))}

/-- The first tree fails. -/
theorem head (h : node.evaluate m = .error e m') : FailsIn (node :: nodes) (some m :: states) e m' :=
  ⟨0, node, m, rfl, rfl, h⟩

/-- A later tree fails. -/
theorem tail (h : FailsIn nodes states e m') (s : Option (Machine σ)) :
    FailsIn (node :: nodes) (s :: states) e m' := by
  obtain ⟨i, child, m₁, hchild, hstate, hfails⟩ := h
  exact ⟨i + 1, child, m₁, hchild, hstate, hfails⟩

/-- The tree behind one that succeeded fails. -/
theorem next {x : Node} {a : Number} {test : Number → Bool} (hok : x.evaluate m = .ok a m₁)
    (htest : test a = true) (h : node.evaluate m₁ = .error e m') :
    FailsIn (node :: nodes) (x.next test m :: states) e m' := by
  rw [next_of_ok hok, if_pos htest]
  exact head h

end FailsIn

/-- Trees in a row fail where one of them does. -/
theorem mapM_error {nodes : List Node} (h : nodes.mapM evaluate m = .error e m') :
    FailsIn nodes (inTurn nodes (some m)) e m' := by
  induction nodes generalizing m with
  | nil => cases h
  | cons node rest ih =>
      rw [List.mapM_cons] at h
      rw [inTurn, Option.bind_some]
      rcases bind_eq_error_iff.mp h with hfirst | ⟨x, m₁, hok, hrest⟩
      · exact .head hfirst
      · rw [next_of_ok hok]
        exact (ih (Total.eq_error (fun _ => .pure _) hrest)).tail _

/-- Statements in turn are trees in a row of which the last value counts. -/
theorem foldlM_evaluate (last : Number) (nodes : List Node) :
    (nodes.foldlM (fun _ => evaluate) last : Evaluation σ Number)
      = nodes.mapM evaluate >>= fun xs => pure (xs.getLastD last) := by
  induction nodes generalizing last with
  | nil => rfl
  | cons node rest ih =>
      rw [List.foldlM_cons, List.mapM_cons, bind_assoc]
      congr 1
      funext x
      rw [ih, bind_assoc]
      congr 1
      funext xs
      rw [pure_bind, List.getLastD_cons]

/-- Of a tree and another one that is evaluated only if the value of the first passes a test, one
fails. -/
theorem second_error {x y : Node} {f : Number → Evaluation σ Number} {test : Number → Bool}
    (hyes : ∀ a m₁, test a = true → f a m₁ = .error e m' → y.evaluate m₁ = .error e m')
    (hno : ∀ a, test a = false → Total (f a)) (h : (x.evaluate >>= f) m = .error e m') :
    FailsIn [x, y] [some m, x.next test m] e m' := by
  rcases bind_eq_error_iff.mp h with hx | ⟨a, m₁, hok, hlast⟩
  · exact .head hx
  · cases htest : test a with
    | true => exact .tail (.next hok htest (hyes a m₁ htest hlast)) _
    | false => exact absurd hlast (hno a htest m₁ e m')

/-- Of a left operand and the right one, which counts only where the left one does not decide, one
fails. -/
theorem logical_error {op : LogicalOp} {x y : Node}
    (h : (Node.logical op x y).evaluate m = .error e m') :
    FailsIn [x, y] ((Node.logical op x y).turns m) e m' := by
  rw [evaluate] at h
  cases op with
  | and =>
      refine second_error (fun a m₁ htruthy h => ?_) (fun a hfalse => ?_) h
      · rw [if_pos htruthy] at h
        exact Total.eq_error (fun _ => .pure _) h
      · rw [if_neg (Bool.eq_false_iff.mp hfalse)]
        exact .pure 0
  | or =>
      refine second_error (fun a m₁ hpasses h => ?_) (fun a hfails => ?_) h
      · rw [if_neg (by simpa using hpasses)] at h
        exact Total.eq_error (fun _ => .pure _) h
      · rw [if_pos (by simpa using hfails)]
        exact .pure 1

/-- Of a condition and two branches, one fails. -/
theorem branches_error {c x y : Node}
    (h : (c.evaluate >>= fun a => if a.isTruthy then x.evaluate else y.evaluate) m = .error e m') :
    FailsIn [c, x, y] [some m, c.next Number.isTruthy m, c.next (fun a => !a.isTruthy) m] e m' := by
  rcases bind_eq_error_iff.mp h with hc | ⟨a, m₁, hok, h⟩
  · exact .head hc
  · cases htruthy : a.isTruthy with
    | true =>
        rw [if_pos htruthy] at h
        exact .tail (.next hok htruthy h) _
    | false =>
        rw [if_neg (Bool.eq_false_iff.mp htruthy)] at h
        exact .tail (.tail (.next hok (by rw [htruthy]; rfl) h) _) _

/-- A node fails at a name without a value, or because a tree right below it fails. -/
theorem evaluate_error (h : node.evaluate m = .error e m') :
    (∃ name, node = .read name ∧ m.context.get? name = none ∧ e = .missingVariable name)
      ∨ FailsIn node.children (node.turns m) e m' := by
  cases node with
  | constant | empty | declare | randomValue =>
      rw [evaluate] at h
      cases h
  | read name =>
      rw [evaluate, evaluateWith, Evaluation.read] at h
      split at h
      · cases h
      · rename_i hnone
        cases h
        exact .inl ⟨name, rfl, hnone, rfl⟩
  | negate x | not x | mathCall _ x =>
      rw [evaluate] at h
      exact .inr (.head (Total.eq_error (fun _ => .pure _) h))
  | declareAs name x =>
      rw [evaluate] at h
      exact .inr (.head (Total.eq_error (fun _ => .write name _) h))
  | assign op name x =>
      rw [evaluate] at h
      exact .inr (.head (Total.eq_error (fun _ => .assign op name _) h))
  | randomInteger own x | randomBelow own x =>
      rw [evaluate] at h
      exact .inr (.head (Total.eq_error (fun _ => .ite (.draw own _) (.pure 0)) h))
  | arithmetic _ x y | comparison _ x y =>
      rw [evaluate] at h
      refine .inr (second_error (fun a m₁ _ h => ?_) (fun _ h => by cases h) h)
      exact Total.eq_error (fun _ => .pure _) h
  | logical => exact .inr (logical_error h)
  | choice | ifElse =>
      rw [evaluate] at h
      exact .inr (branches_error h)
  | ifThen c x =>
      rw [evaluate] at h
      refine .inr (second_error (fun a m₁ htruthy h => ?_) (fun a hfalse => ?_) h)
      · rwa [if_pos htruthy] at h
      · rw [if_neg (Bool.eq_false_iff.mp hfalse)]
        exact .pure 0
  | sequence statements =>
      rw [evaluate_sequence, foldlM_evaluate] at h
      exact .inr (mapM_error (Total.eq_error (fun _ => .pure _) h))
  | multiCall f arguments =>
      rw [evaluate_multiCall] at h
      exact .inr (mapM_error (Total.eq_error (fun _ => .pure _) h))

end Failures

end Node

end Formulary
