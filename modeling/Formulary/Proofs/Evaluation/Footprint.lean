import Formulary.Evaluation
import Formulary.Proofs.Tree.Mentions

/-!
# What an evaluation touches

An evaluation reaches the context by a few steps only, and each of them names the name that it
reads or writes. So what an evaluation can do to a context is told by two sets of names, and facts
about it are proved once for each step rather than once for each kind of node.

- `Evaluation.Uses` says that an evaluation is put together from steps that read and write within
  two sets of names.
- `Node.evaluate_uses` says that the names a tree mentions are all that it uses.
- `Evaluation.Uses.missing` and `Evaluation.Uses.keeps` are the facts that follow about failures
  and about bound names.
-/

namespace Formulary

namespace Evaluation

variable {σ α β : Type}

/-! ## Steps in turn -/

/-- Two steps in turn: the second starts where the first has succeeded. -/
theorem bind_apply (x : Evaluation σ α) (f : α → Evaluation σ β) (m : Machine σ) :
    (x >>= f) m = match x m with
      | .ok a m' => f a m'
      | .error e m' => .error e m' := by
  show EStateM.bind x f m = _
  rw [EStateM.bind]
  cases x m <;> rfl

theorem bind_eq_ok_iff {x : Evaluation σ α} {f : α → Evaluation σ β} {m m' : Machine σ} {b : β} :
    (x >>= f) m = .ok b m' ↔ ∃ a m₁, x m = .ok a m₁ ∧ f a m₁ = .ok b m' := by
  rw [bind_apply]
  cases x m with
  | ok a m₁ => simp [and_assoc]
  | error e m₁ => simp

theorem bind_eq_error_iff {x : Evaluation σ α} {f : α → Evaluation σ β} {m m' : Machine σ}
    {e : EvaluationError} :
    (x >>= f) m = .error e m'
      ↔ x m = .error e m' ∨ ∃ a m₁, x m = .ok a m₁ ∧ f a m₁ = .error e m' := by
  rw [bind_apply]
  cases x m with
  | ok a m₁ => simp [and_assoc]
  | error e m₁ => simp

/-! ## Reading and writing within sets of names -/

variable [RandomProvider σ] {R W : Text → Prop}

/-- An evaluation that fails on names in `R` only, and writes names in `W` only. A combining
assignment also looks at the name it writes. -/
inductive Uses (R W : Text → Prop) : {α : Type} → Evaluation σ α → Prop where
  | pure {α : Type} (a : α) : Uses R W (Pure.pure a)
  | bind {α β : Type} {x : Evaluation σ α} {f : α → Evaluation σ β} (first : Uses R W x)
      (next : ∀ a, Uses R W (f a)) : Uses R W (x >>= f)
  | read {name : Text} (mem : R name) : Uses R W (Evaluation.read name)
  | readOrZero {name : Text} (mem : W name) : Uses R W (Evaluation.readOrZero name)
  | write {name : Text} (mem : W name) (value : Number) : Uses R W (Evaluation.write name value)
  | draw (bound : ProviderId) (request : Draw) : Uses R W (Evaluation.draw bound request)

namespace Uses

theorem ite {c : Prop} [Decidable c] {x y : Evaluation σ α} (hx : Uses R W x) (hy : Uses R W y) :
    Uses R W (if c then x else y) := by
  split
  · exact hx
  · exact hy

theorem assign {name : Text} (mem : W name) (op : AssignmentOp) (value : Number) :
    Uses R W (Evaluation.assign op name value : Evaluation σ Number) := by
  rw [Evaluation.assign]
  cases op.arithmetic? with
  | none => exact .write mem value
  | some arithmetic => exact .bind (.readOrZero mem) fun present => .write mem _

/-- A bound name stays bound. -/
theorem keeps {x : Evaluation σ α} (h : Uses R W x) {m m' : Machine σ} {a : α}
    (hx : x m = .ok a m') {name : Text} (hname : m.context.contains name) :
    m'.context.contains name := by
  induction h generalizing m m' with
  | pure b =>
      cases hx
      exact hname
  | bind _ _ ihx ihf =>
      obtain ⟨b, m₁, hx, hf⟩ := bind_eq_ok_iff.mp hx
      exact ihf b hf (ihx hx hname)
  | @read other mem =>
      rw [Evaluation.read] at hx
      split at hx
      · cases hx
        exact hname
      · exact nomatch hx
  | readOrZero mem =>
      cases hx
      exact hname
  | @write other mem value =>
      cases hx
      rw [OrderedMap.contains, OrderedMap.get?_insert]
      split
      · rfl
      · exact hname
  | draw bound request =>
      cases hx
      exact hname

/-- A failure names a name in `R` that was not bound at the start. -/
theorem missing {x : Evaluation σ α} (h : Uses R W x) {m m' : Machine σ} {name : Text}
    (hx : x m = .error (.missingVariable name) m') :
    R name ∧ m.context.contains name = false := by
  induction h generalizing m m' with
  | pure b => exact nomatch hx
  | bind first _ ihx ihf =>
      rcases bind_eq_error_iff.mp hx with hx | ⟨b, m₁, hx, hf⟩
      · exact ihx hx
      · obtain ⟨hR, hname⟩ := ihf b hf
        refine ⟨hR, Bool.eq_false_iff.mpr fun hbound => ?_⟩
        rw [first.keeps hx hbound] at hname
        exact nomatch hname
  | @read other mem =>
      rw [Evaluation.read] at hx
      split at hx
      · exact nomatch hx
      · rename_i hnone
        cases hx
        exact ⟨mem, by rw [OrderedMap.contains, hnone]; rfl⟩
  | readOrZero mem => exact nomatch hx
  | write mem value => exact nomatch hx
  | draw bound request => exact nomatch hx

/-- An evaluation succeeds where all names in `R` are bound. -/
theorem succeeds {x : Evaluation σ α} (h : Uses R W x) {m : Machine σ}
    (hbound : ∀ name, R name → m.context.contains name) : ∃ a m', x m = .ok a m' := by
  cases hx : x m with
  | ok a m' => exact ⟨a, m', rfl⟩
  | error e m' =>
      obtain ⟨name⟩ := e
      obtain ⟨hR, hname⟩ := h.missing hx
      rw [hbound name hR] at hname
      exact nomatch hname

end Uses

end Evaluation

/-! ## Trees -/

namespace Node

open Evaluation

variable {σ : Type} [RandomProvider σ] {R W : Text → Prop}

/-- Statements are evaluated in turn, and the value is that of the last one. -/
theorem evaluate_sequence (statements : List Node) :
    (Node.sequence statements).evaluate
      = (statements.foldlM (fun _ => evaluate) 0 : Evaluation σ Number) := by
  rw [evaluate, evaluateWith, List.foldlM_subtype (g := fun _ => evaluate) (fun _ _ _ => rfl),
    List.unattach_attach]

/-- The arguments of a call are evaluated in turn. -/
theorem evaluate_multiCall (f : MultiFunction) (arguments : List Node) :
    (Node.multiCall f arguments).evaluate
      = (do
        let xs ← arguments.mapM evaluate
        return f.apply xs : Evaluation σ Number) := by
  rw [evaluate, evaluateWith, List.mapM_subtype (g := evaluate) (fun _ _ => rfl),
    List.unattach_attach]

theorem mapM_uses {nodes : List Node}
    (h : ∀ node ∈ nodes, Uses R W (node.evaluate : Evaluation σ Number)) :
    Uses R W (nodes.mapM evaluate : Evaluation σ (List Number)) := by
  induction nodes with
  | nil => exact .pure _
  | cons node rest ih =>
      rw [List.mapM_cons]
      exact .bind (h node (by simp)) fun x =>
        .bind (ih fun n hn => h n (by simp [hn])) fun xs => .pure _

theorem foldlM_uses {nodes : List Node}
    (h : ∀ node ∈ nodes, Uses R W (node.evaluate : Evaluation σ Number)) (last : Number) :
    Uses R W (nodes.foldlM (fun _ => evaluate) last : Evaluation σ Number) := by
  induction nodes generalizing last with
  | nil => exact .pure _
  | cons node rest ih =>
      rw [List.foldlM_cons]
      exact .bind (h node (by simp)) fun x => ih (fun n hn => h n (by simp [hn])) x

/-- The evaluation of a tree reads and writes the names that the tree mentions. -/
theorem evaluate_uses (node : Node) :
    Uses (fun name => .read name ∈ node.mentions) (fun name => .bind name ∈ node.mentions)
      (node.evaluate : Evaluation σ Number) := by
  -- for the induction, any sets that hold what the tree mentions
  suffices h : ∀ R W : Text → Prop, (∀ name, .read name ∈ node.mentions → R name) →
      (∀ name, .bind name ∈ node.mentions → W name) →
      Uses R W (node.evaluate : Evaluation σ Number) from
    h _ _ (fun _ h => h) (fun _ h => h)
  induction node using induction_children with
  | step node ih =>
  intro R W hR hW
  have hchild : ∀ child ∈ node.children, Uses R W (child.evaluate : Evaluation σ Number) :=
    fun child hc => ih child hc R W (fun name h => hR name (mentions_of_child hc h))
      (fun name h => hW name (mentions_of_child hc h))
  cases node with
  | constant | empty =>
      rw [evaluate, evaluateWith]
      exact .pure _
  | read name =>
      rw [evaluate, evaluateWith]
      exact .read (hR name (by simp [mentions]))
  | negate x | not x | mathCall _ x =>
      rw [evaluate, evaluateWith]
      exact .bind (hchild x (by simp [children])) fun _ => .pure _
  | arithmetic _ x y | comparison _ x y =>
      rw [evaluate, evaluateWith]
      exact .bind (hchild x (by simp [children])) fun _ =>
        .bind (hchild y (by simp [children])) fun _ => .pure _
  | logical op x y =>
      have hy := hchild y (by simp [children])
      cases op with
      | and =>
          rw [evaluate, evaluateWith]
          exact .bind (hchild x (by simp [children])) fun _ =>
            .ite (.bind hy fun _ => .pure _) (.pure _)
      | or =>
          rw [evaluate, evaluateWith]
          exact .bind (hchild x (by simp [children])) fun _ =>
            .ite (.pure _) (.bind hy fun _ => .pure _)
  | choice c x y | ifElse c x y =>
      rw [evaluate, evaluateWith]
      exact .bind (hchild c (by simp [children])) fun _ =>
        .ite (hchild x (by simp [children])) (hchild y (by simp [children]))
  | ifThen c x =>
      rw [evaluate, evaluateWith]
      exact .bind (hchild c (by simp [children])) fun _ =>
        .ite (hchild x (by simp [children])) (.pure _)
  | declare name =>
      rw [evaluate, evaluateWith]
      exact .write (hW name (by simp [mentions])) _
  | declareAs name x =>
      rw [evaluate, evaluateWith]
      exact .bind (hchild x (by simp [children])) fun _ => .write (hW name (by simp [mentions])) _
  | assign op name x =>
      rw [evaluate, evaluateWith]
      exact .bind (hchild x (by simp [children])) fun _ =>
        .assign (hW name (by simp [mentions])) op _
  | sequence statements =>
      rw [evaluate_sequence]
      exact foldlM_uses hchild 0
  | multiCall f arguments =>
      rw [evaluate_multiCall]
      exact .bind (mapM_uses hchild) fun _ => .pure _
  | randomValue =>
      rw [evaluate, evaluateWith]
      exact .draw _ _
  | randomInteger _ x | randomBelow _ x =>
      rw [evaluate, evaluateWith]
      exact .bind (hchild x (by simp [children])) fun _ => .ite (.draw _ _) (.pure _)

end Node

end Formulary
