import Formulary.Proofs.Evaluation.Simulation

/-!
# Providers seen through a map

An evaluation knows a provider by its answers alone. Where a map from the states of one kind of
provider to those of another commutes with answering, evaluations with the two go the same way, and
where the one ends the map leads to where the other ends.

- `RandomProvider.Commutes` says that a map commutes with answering.
- `Sources.answer_map` says that the provider in force then gives the same answer.
- `Node.run_map` is the statement about trees.
-/

namespace Formulary

variable {σ τ : Type}

/-- Providers seen through a map. -/
def Sources.map (φ : σ → τ) (s : Sources σ) : Sources τ := ⟨fun id => φ (s.states id), s.substitute⟩

/-- A state of an evaluation seen through a map of its providers. -/
def Machine.map (φ : σ → τ) (m : Machine σ) : Machine τ := ⟨m.context, m.sources.map φ, m.calls⟩

/-- What came of an evaluation, seen through a map of its providers. -/
def Run.map (φ : σ → τ) (r : Run σ) : Run τ := ⟨r.outcome, r.context, r.sources.map φ, r.calls⟩

variable [RandomProvider σ] [RandomProvider τ] {φ : σ → τ}

/-- A map between providers commutes with answering. -/
def RandomProvider.Commutes (φ : σ → τ) : Prop :=
  ∀ (p : σ) (request : Draw), RandomProvider.answer (φ p) request
    = ((RandomProvider.answer p request).1, φ (RandomProvider.answer p request).2)

/-- The provider in force gives the same answer, and the others stay where they are. -/
theorem Sources.answer_map (hφ : RandomProvider.Commutes φ) (s : Sources σ) (bound : ProviderId)
    (request : Draw) :
    (s.map φ).answer bound request
      = ((s.answer bound request).1, (s.answer bound request).2.map φ) := by
  have hid : (s.map φ).asked bound = s.asked bound := rfl
  rw [answer, answer, hid, map, map, hφ]
  simp only [Prod.mk.injEq, mk.injEq, and_true, true_and]
  funext id
  exact (apply_ite φ _ _ _).symm

/-- No step tells the states of an evaluation from those states seen through the map. -/
theorem Machine.preserved_map (hφ : RandomProvider.Commutes φ) (R W : Text → Prop)
    (D : ProviderId → Prop) :
    Evaluation.Preserved R W D id (fun m (m' : Machine τ) => m' = m.map φ) where
  reads := by
    rintro m _ name rfl -
    rfl
  writes := by
    rintro m _ name rfl - value
    rfl
  draws := by
    rintro m _ own rfl - request
    have hanswer : (m.map φ).sources.answer own request = _ := m.sources.answer_map hφ own request
    rw [id, Evaluation.draw, Evaluation.draw, hanswer]
    exact .ok _ rfl

/-- A run with one kind of provider is the run with the other, seen through the map. -/
theorem Node.run_map (hφ : RandomProvider.Commutes φ) (node : Node) (context : Context)
    (sources : Sources σ) :
    node.run context (sources.map φ) = (node.run context sources).map φ := by
  have hstart : Machine.mk context (sources.map φ) [] = (Machine.mk context sources []).map φ := rfl
  obtain ⟨houtcome, hmachine⟩ := node.run_alike (Machine.preserved_map hφ _ _ _) hstart
  generalize node.run context (sources.map φ) = r' at houtcome hmachine ⊢
  generalize node.run context sources = r at houtcome hmachine ⊢
  obtain ⟨_, context', _, _⟩ := r'
  obtain ⟨rfl, rfl, rfl⟩ := Machine.mk.inj hmachine
  cases houtcome
  rfl

end Formulary
