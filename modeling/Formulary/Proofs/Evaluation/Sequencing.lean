import Formulary.Proofs.Evaluation.Simulation

/-!
# Evaluating statements in turn

Statements are run one after the other, each in the state that the ones before have left, and the
value is that of the last. So statements can be cut into two parts and the parts evaluated apart.

- `Node.evaluate_recall` says that calls made earlier change nothing.
- `Run.andThen` puts one evaluation behind another, and `Node.run_collapse_append` says that
  statements are evaluated in two parts that way.
-/

namespace Formulary

variable {σ : Type}

/-- The machine with calls that were made earlier. -/
def Machine.recall (calls : List Call) (m : Machine σ) : Machine σ :=
  { m with calls := calls ++ m.calls }

/-- Another evaluation behind one that succeeded, in the context and with the providers that it
left. -/
def Run.andThen (r : Run σ) (next : Context → Sources σ → Run σ) : Run σ :=
  match r.outcome with
  | .error _ => r
  | .ok _ =>
    let behind := next r.context r.sources
    { behind with calls := r.calls ++ behind.calls }

variable [RandomProvider σ]

/-- No step looks at the calls made before it. -/
theorem Machine.preserved_recall (R W : Text → Prop) (D : ProviderId → Prop) (calls : List Call) :
    Evaluation.Preserved R W D id (fun m m' : Machine σ => m' = m.recall calls) where
  reads := by
    rintro m _ name rfl -
    rfl
  writes := by
    rintro m _ name rfl - value
    rfl
  draws := by
    rintro m _ own rfl - request
    refine .ok _ ?_
    rw [Machine.recall, Machine.recall, List.append_assoc]
    rfl

namespace Node

open Evaluation Grammar

/-- No evaluation looks at the calls made before it. -/
theorem evaluate_recall (node : Node) (calls : List Call) (m : Machine σ) :
    node.evaluate (m.recall calls) = match node.evaluate m with
      | .ok a m' => .ok a (m'.recall calls)
      | .error e m' => .error e (m'.recall calls) := by
  have hpreserved := Machine.preserved_recall (σ := σ) (fun _ => True) (fun _ => True)
    (fun _ => True) calls
  have halike := evaluate_follows hpreserved node (fun _ _ => trivial) (fun _ _ => trivial)
    (fun _ _ => trivial) (m := m) rfl
  rw [rebind_id] at halike
  generalize node.evaluate m = r, node.evaluate (m.recall calls) = r' at halike
  cases halike with
  | ok a related => rw [related]
  | error e related => rw [related]

/-- Where there is a statement, the value before it does not count. -/
theorem foldlM_evaluate_of_ne_nil {nodes : List Node} (h : nodes ≠ []) (x y : Number) :
    (nodes.foldlM (fun _ => evaluate) x : Evaluation σ Number)
      = nodes.foldlM (fun _ => evaluate) y := by
  cases nodes with
  | nil => exact absurd rfl h
  | cons node rest => rw [List.foldlM_cons, List.foldlM_cons]

/-- The tree of some statements is evaluated as the statements are. -/
theorem evaluate_collapse (nodes : List Node) :
    ((collapse (.constant 0) nodes).evaluate : Evaluation σ Number)
      = nodes.foldlM (fun _ => evaluate) 0 := by
  match nodes with
  | [] =>
      rw [collapse, evaluate]
      rfl
  | [node] =>
      rw [collapse, List.foldlM_cons]
      exact (bind_pure _).symm
  | _ :: _ :: _ => exact evaluate_sequence _

/-- A program of two parts is evaluated as the first part and then the second. -/
theorem run_collapse_append (nodes : List Node) {more : List Node} (hmore : more ≠ [])
    (context : Context) (sources : Sources σ) :
    (collapse (.constant 0) (nodes ++ more)).run context sources
      = ((collapse (.constant 0) nodes).run context sources).andThen
        (fun context sources => (collapse (.constant 0) more).run context sources) := by
  rw [run, run, evaluate_collapse, evaluate_collapse, List.foldlM_append, bind_apply]
  cases nodes.foldlM (fun _ => evaluate) 0 (⟨context, sources, []⟩ : Machine σ) with
  | error e m => rfl
  | ok x m =>
      have hrecall : (⟨m.context, m.sources, m.calls⟩ : Machine σ)
          = Machine.recall m.calls ⟨m.context, m.sources, []⟩ := by
        rw [Machine.recall, List.append_nil]
      have hframe := (collapse (.constant 0) more).evaluate_recall m.calls
        ⟨m.context, m.sources, []⟩
      rw [evaluate_collapse, ← hrecall] at hframe
      dsimp only [Run.andThen]
      rw [run, evaluate_collapse, foldlM_evaluate_of_ne_nil hmore x 0, hframe]
      cases more.foldlM (fun _ => evaluate) 0 (⟨m.context, m.sources, []⟩ : Machine σ) with
      | ok y m' => rfl
      | error e m' => rfl

end Node

end Formulary
