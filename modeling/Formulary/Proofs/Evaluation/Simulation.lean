import Formulary.Proofs.Evaluation.Footprint
import Formulary.Proofs.Tree.Providers

/-!
# Two evaluations side by side

Two evaluations of one tree that start in different states go the same way as long as neither a name
that is read nor a draw tells the states apart, even if the tree of one of them is bound to other
providers. What has to be shown for that is said once, about the few steps that an evaluation is put
together from.

- `Evaluation.Follows` says that one evaluation goes the way of another from related states.
- `Evaluation.Preserved` says that a relation between states is kept by every step, and that no step
  tells related states apart.
- `Node.evaluate_follows` carries it over to trees, and `Node.run_follows` and `Node.run_alike` to
  their runs.
-/

namespace Formulary

namespace Evaluation

variable {σ τ α β : Type} {rel : Machine σ → Machine τ → Prop}

/-! ## Evaluations -/

/-- The same value or the same failure, in related states. -/
inductive Alike (rel : Machine σ → Machine τ → Prop) :
    EStateM.Result EvaluationError (Machine σ) α → EStateM.Result EvaluationError (Machine τ) α →
      Prop where
  | ok {m : Machine σ} {m' : Machine τ} (a : α) (related : rel m m') : Alike rel (.ok a m) (.ok a m')
  | error {m : Machine σ} {m' : Machine τ} (e : EvaluationError) (related : rel m m') :
      Alike rel (.error e m) (.error e m')

/-- From related states, one evaluation goes the way of another. -/
def Follows (rel : Machine σ → Machine τ → Prop) (x : Evaluation σ α) (y : Evaluation τ α) : Prop :=
  ∀ ⦃m : Machine σ⦄ ⦃m' : Machine τ⦄, rel m m' → Alike rel (x m) (y m')

namespace Follows

theorem pure (a : α) : Follows rel (Pure.pure a) (Pure.pure a) := fun _ _ related => .ok a related

/-- Evaluations that follow each other go on doing so, for they get the same value in related
states. -/
theorem bind {x : Evaluation σ α} {y : Evaluation τ α} {f : α → Evaluation σ β}
    {g : α → Evaluation τ β} (hx : Follows rel x y) (hf : ∀ a, Follows rel (f a) (g a)) :
    Follows rel (x >>= f) (y >>= g) := by
  intro m m' related
  rw [bind_apply, bind_apply]
  have halike := hx related
  generalize x m = r, y m' = r' at halike
  cases halike with
  | ok a related => exact hf a related
  | error e related => exact .error e related

/-- A value that both got decides the same branch. -/
theorem ite {c : Prop} [Decidable c] {x x' : Evaluation σ α} {y y' : Evaluation τ α}
    (h : Follows rel x y) (h' : Follows rel x' y') :
    Follows rel (if c then x else x') (if c then y else y') := by
  split
  · exact h
  · exact h'

end Follows

/-! ## Steps -/

variable [RandomProvider σ] [RandomProvider τ] {R W : Text → Prop} {D : ProviderId → Prop}
  {f : ProviderId → ProviderId}

/-- Steps that read and write within two sets of names, and that draw from a provider in `D` on one
side and from the one that `f` puts in its place on the other, keep a relation between states and do
not tell related states apart. -/
structure Preserved (R W : Text → Prop) (D : ProviderId → Prop) (f : ProviderId → ProviderId)
    (rel : Machine σ → Machine τ → Prop) : Prop where
  reads {m : Machine σ} {m' : Machine τ} {name : Text} (related : rel m m')
    (mem : R name ∨ W name) : m.context.get? name = m'.context.get? name
  writes {m : Machine σ} {m' : Machine τ} {name : Text} (related : rel m m') (mem : W name)
    (value : Number) :
    rel { m with context := m.context.insert name value }
      { m' with context := m'.context.insert name value }
  draws {m : Machine σ} {m' : Machine τ} {own : ProviderId} (related : rel m m') (mem : D own)
    (request : Draw) : Alike rel (draw own request m) (draw (f own) request m')

namespace Preserved

/-- Related states hold the same value under a name that is read, or both miss it. -/
theorem read (h : Preserved R W D f rel) {name : Text} (mem : R name) :
    Follows rel (Evaluation.read name) (Evaluation.read name) := by
  intro m m' related
  rw [Evaluation.read, Evaluation.read, h.reads related (.inl mem)]
  cases m'.context.get? name with
  | some value => exact .ok value related
  | none => exact .error _ related

/-- A name that is assigned to need not have a value in either state. -/
theorem readOrZero (h : Preserved R W D f rel) {name : Text} (mem : W name) :
    Follows rel (Evaluation.readOrZero name) (Evaluation.readOrZero name) := by
  intro m m' related
  rw [Evaluation.readOrZero, Evaluation.readOrZero, h.reads related (.inr mem)]
  exact .ok _ related

theorem write (h : Preserved R W D f rel) {name : Text} (mem : W name) (value : Number) :
    Follows rel (Evaluation.write name value) (Evaluation.write name value) :=
  fun _ _ related => .ok value (h.writes related mem value)

/-- An assignment keeps states related, whether it combines or not. -/
theorem assign (h : Preserved R W D f rel) {name : Text} (mem : W name) (op : AssignmentOp)
    (value : Number) :
    Follows rel (Evaluation.assign op name value) (Evaluation.assign op name value) := by
  rw [Evaluation.assign, Evaluation.assign]
  cases op.arithmetic? with
  | none => exact h.write mem value
  | some arithmetic => exact (h.readOrZero mem).bind fun present => h.write mem _

/-- A draw keeps states related if the providers correspond. -/
theorem draw (h : Preserved R W D f rel) {own : ProviderId} (mem : D own) (request : Draw) :
    Follows rel (Evaluation.draw own request) (Evaluation.draw (f own) request) :=
  fun _ _ related => h.draws related mem request

end Preserved

end Evaluation

/-! ## Trees -/

/-- The state behind an evaluation. -/
def Run.machine {σ : Type} (r : Run σ) : Machine σ := ⟨r.context, r.sources, r.calls⟩

namespace Node

open Evaluation

variable {σ τ : Type} [RandomProvider σ] [RandomProvider τ] {rel : Machine σ → Machine τ → Prop}
  {R W : Text → Prop} {D : ProviderId → Prop} {f : ProviderId → ProviderId}

/-- Arguments are followed one by one. -/
theorem mapM_follows {nodes : List Node}
    (h : ∀ node ∈ nodes, Follows rel node.evaluate (node.rebind f).evaluate) :
    Follows rel (nodes.mapM evaluate) ((nodes.map (rebind f)).mapM evaluate) := by
  induction nodes with
  | nil => exact .pure _
  | cons node rest ih =>
      rw [List.map_cons, List.mapM_cons, List.mapM_cons]
      exact .bind (h node (by simp)) fun x =>
        .bind (ih fun n hn => h n (by simp [hn])) fun xs => .pure _

/-- Statements are followed one by one, whatever the value of the last one was. -/
theorem foldlM_follows {nodes : List Node}
    (h : ∀ node ∈ nodes, Follows rel node.evaluate (node.rebind f).evaluate) (last : Number) :
    Follows rel (nodes.foldlM (fun _ => evaluate) last)
      ((nodes.map (rebind f)).foldlM (fun _ => evaluate) last) := by
  induction nodes generalizing last with
  | nil => exact .pure _
  | cons node rest ih =>
      rw [List.map_cons, List.foldlM_cons, List.foldlM_cons]
      exact .bind (h node (by simp)) fun x => ih (fun n hn => h n (by simp [hn])) x

/-- The evaluation of a tree, bound to other providers, goes the way of that of the tree. -/
theorem evaluate_follows (hrel : Preserved R W D f rel) (node : Node)
    (hR : ∀ name, .read name ∈ node.mentions → R name)
    (hW : ∀ name, .bind name ∈ node.mentions → W name) (hD : ∀ own, node.DrawsFrom own → D own) :
    Follows rel node.evaluate (node.rebind f).evaluate := by
  induction node using induction_children with
  | step node ih =>
  have hchild : ∀ child ∈ node.children, Follows rel child.evaluate (child.rebind f).evaluate :=
    fun child hc => ih child hc (fun name h => hR name (mentions_of_child hc h))
      (fun name h => hW name (mentions_of_child hc h)) (fun own h => hD own (h.of_child hc))
  have hown : ∀ own, node.provider? = some own → D own :=
    fun own h => hD own (drawsFrom_iff.mpr (.inl h))
  cases node with
  | constant | empty =>
      rw [rebind, evaluate, evaluate]
      exact .pure _
  | read name =>
      rw [rebind, evaluate, evaluate]
      exact hrel.read (hR name (by simp [mentions]))
  | negate x | not x | mathCall _ x =>
      rw [rebind, evaluate, evaluate]
      exact .bind (hchild x (by simp [children])) fun _ => .pure _
  | arithmetic _ x y | comparison _ x y =>
      rw [rebind, evaluate, evaluate]
      exact .bind (hchild x (by simp [children])) fun _ =>
        .bind (hchild y (by simp [children])) fun _ => .pure _
  | logical op x y =>
      have hy := hchild y (by simp [children])
      rw [rebind, evaluate, evaluate]
      cases op with
      | and =>
          exact .bind (hchild x (by simp [children])) fun _ =>
            .ite (.bind hy fun _ => .pure _) (.pure _)
      | or =>
          exact .bind (hchild x (by simp [children])) fun _ =>
            .ite (.pure _) (.bind hy fun _ => .pure _)
  | choice c x y | ifElse c x y =>
      rw [rebind, evaluate, evaluate]
      exact .bind (hchild c (by simp [children])) fun _ =>
        .ite (hchild x (by simp [children])) (hchild y (by simp [children]))
  | ifThen c x =>
      rw [rebind, evaluate, evaluate]
      exact .bind (hchild c (by simp [children])) fun _ =>
        .ite (hchild x (by simp [children])) (.pure _)
  | declare name =>
      rw [rebind, evaluate, evaluate]
      exact hrel.write (hW name (by simp [mentions])) _
  | declareAs name x =>
      rw [rebind, evaluate, evaluate]
      exact .bind (hchild x (by simp [children])) fun _ =>
        hrel.write (hW name (by simp [mentions])) _
  | assign op name x =>
      rw [rebind, evaluate, evaluate]
      exact .bind (hchild x (by simp [children])) fun _ =>
        hrel.assign (hW name (by simp [mentions])) op _
  | sequence statements =>
      rw [rebind, rebindAll_eq_map, evaluate_sequence, evaluate_sequence]
      exact foldlM_follows hchild 0
  | multiCall g arguments =>
      rw [rebind, rebindAll_eq_map, evaluate_multiCall, evaluate_multiCall]
      exact .bind (mapM_follows hchild) fun _ => .pure _
  | randomValue own =>
      rw [rebind, evaluate, evaluate]
      exact hrel.draw (hown own rfl) _
  | randomInteger own x | randomBelow own x =>
      rw [rebind, evaluate, evaluate]
      exact .bind (hchild x (by simp [children])) fun _ =>
        .ite (hrel.draw (hown own rfl) _) (.pure _)

/-- Evaluations of a tree and of the tree bound to other providers that start in related states have
the same outcome and end in related states. -/
theorem run_follows (node : Node)
    (hrel : Preserved (fun name => .read name ∈ node.mentions)
      (fun name => .bind name ∈ node.mentions) node.DrawsFrom f rel)
    {context context' : Context} {sources : Sources σ} {sources' : Sources τ}
    (h : rel ⟨context, sources, []⟩ ⟨context', sources', []⟩) :
    (node.run context sources).outcome = ((node.rebind f).run context' sources').outcome
      ∧ rel (node.run context sources).machine ((node.rebind f).run context' sources').machine := by
  have halike := evaluate_follows hrel node (fun _ h => h) (fun _ h => h) (fun _ h => h) h
  rw [run, run]
  generalize node.evaluate ⟨context, sources, []⟩ = r,
    (node.rebind f).evaluate ⟨context', sources', []⟩ = r' at halike
  cases halike with
  | ok a related => exact ⟨rfl, related⟩
  | error e related => exact ⟨rfl, related⟩

/-- Two evaluations of a tree that start in related states have the same outcome and end in related
states. -/
theorem run_alike (node : Node)
    (hrel : Preserved (fun name => .read name ∈ node.mentions)
      (fun name => .bind name ∈ node.mentions) node.DrawsFrom id rel)
    {context context' : Context} {sources : Sources σ} {sources' : Sources τ}
    (h : rel ⟨context, sources, []⟩ ⟨context', sources', []⟩) :
    (node.run context sources).outcome = (node.run context' sources').outcome
      ∧ rel (node.run context sources).machine (node.run context' sources').machine := by
  have hrun := node.run_follows hrel h
  rwa [rebind_id] at hrun

end Node

end Formulary
