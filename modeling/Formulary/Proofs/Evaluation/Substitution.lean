import Formulary.Proofs.Evaluation.Simulation
import Formulary.Proofs.Grammar.Binding

/-!
# A provider that stands in for another

A formula is bound to the provider that its text is read with, and another one may stand in for it
during one evaluation. Then all draws are made from the one that stands in, just as if the text had
been read with it, and the formula's own provider is where it was.

- `RandomProvider.asked` is a provider behind some requests.
- `Run.Matches` says that two evaluations cannot be told apart, and `Run.AsksOnly` that one provider
  has served an evaluation alone.
- `Machine.Beside` relates the states of two evaluations that one provider serves, be it because it
  stands in for others or because the tree is bound to it.
- `Formula.evaluateIn_substitute` is the statement about texts.
-/

namespace Formulary

variable {σ : Type} [RandomProvider σ]

/-- A provider behind some requests, answered in turn. -/
def RandomProvider.asked (provider : σ) (draws : List Draw) : σ :=
  draws.foldl (fun p draw => (RandomProvider.answer p draw).2) provider

theorem RandomProvider.asked_concat (provider : σ) (draws : List Draw) (request : Draw) :
    asked provider (draws ++ [request])
      = (RandomProvider.answer (asked provider draws) request).2 := by
  rw [asked, List.foldl_append]
  rfl

/-- Two evaluations have the same outcome, the same context behind them and the same calls, and they
leave some providers in the same states. -/
structure Run.Matches (ids : ProviderId → Prop) (r r' : Run σ) : Prop where
  outcome : r.outcome = r'.outcome
  context : r.context = r'.context
  calls : r.calls = r'.calls
  states : ∀ id, ids id → r.sources.states id = r'.sources.states id

/-- All calls of an evaluation went to one provider, which is behind just these requests, and the
others are in the states that they were in before. -/
structure Run.AsksOnly (id : ProviderId) (before : ProviderId → σ) (r : Run σ) : Prop where
  calls : ∀ call ∈ r.calls, call.provider = id
  state : r.sources.states id = RandomProvider.asked (before id) (r.calls.map (·.draw))
  others : ∀ other, other ≠ id → r.sources.states other = before other

/-- The states of two evaluations, side by side, that have asked the same of one provider, in the same
state at the start, and nothing of the others. -/
structure Machine.Beside (id : ProviderId) (start start' : Sources σ) (m m' : Machine σ) : Prop where
  context : m.context = m'.context
  calls : m.calls = m'.calls
  provider : ∀ call ∈ m.calls, call.provider = id
  state : m.sources.states id = RandomProvider.asked (start.states id) (m.calls.map (·.draw))
  same : m.sources.states id = m'.sources.states id
  others : ∀ other, other ≠ id → m.sources.states other = start.states other
    ∧ m'.sources.states other = start'.states other
  substitute : m.sources.substitute = start.substitute
  substitute' : m'.sources.substitute = start'.substitute

/-- The answer is that of the provider in force. -/
theorem Sources.answer_fst (s : Sources σ) (own : ProviderId) (request : Draw) :
    (s.answer own request).1 = (RandomProvider.answer (s.states (s.asked own)) request).1 := rfl

/-- An answer changes the state of the provider in force and of no other. -/
theorem Sources.states_answer (s : Sources σ) (own : ProviderId) (request : Draw)
    (id : ProviderId) :
    (s.answer own request).2.states id
      = if id = s.asked own then (RandomProvider.answer (s.states (s.asked own)) request).2
        else s.states id := rfl

/-- Draws that one provider serves on either side are the same draws. -/
theorem Machine.Beside.draw {id own own' : ProviderId} {start start' : Sources σ} {m m' : Machine σ}
    (h : Beside id start start' m m') (hown : start.asked own = id) (hown' : start'.asked own' = id)
    (request : Draw) :
    Evaluation.Alike (Beside id start start') (Evaluation.draw own request m)
      (Evaluation.draw own' request m') := by
  have hasked : m.sources.asked own = id := by rw [Sources.asked, h.substitute]; exact hown
  have hasked' : m'.sources.asked own' = id := by rw [Sources.asked, h.substitute']; exact hown'
  have hvalue : (m.sources.answer own request).1 = (m'.sources.answer own' request).1 := by
    rw [Sources.answer_fst, Sources.answer_fst, hasked, hasked', h.same]
  rw [Evaluation.draw, Evaluation.draw]
  dsimp only
  rw [hvalue, hasked, hasked']
  refine .ok _ ⟨h.context, by rw [h.calls], ?_, ?_, ?_, ?_, h.substitute, h.substitute'⟩
  · intro call hcall
    rcases List.mem_append.mp hcall with hcall | hcall
    · exact h.provider call hcall
    · rw [List.mem_singleton.mp hcall]
  · rw [Sources.states_answer, hasked, if_pos rfl, List.map_append, List.map_singleton,
      RandomProvider.asked_concat, ← h.state]
  · rw [Sources.states_answer, Sources.states_answer, hasked, hasked', if_pos rfl, if_pos rfl,
      h.same]
  · intro other hother
    rw [Sources.states_answer, Sources.states_answer, hasked, hasked', if_neg hother, if_neg hother]
    exact h.others other hother

/-- No step tells the two evaluations apart. -/
theorem Machine.preserved_beside {D : ProviderId → Prop} {f : ProviderId → ProviderId}
    {id : ProviderId} {start start' : Sources σ}
    (h : ∀ own, D own → start.asked own = id ∧ start'.asked (f own) = id) (R W : Text → Prop) :
    Evaluation.Preserved R W D f (Beside id start start') where
  reads := fun related _ => by rw [related.context]
  writes := fun related _ value => { related with context := by rw [related.context] }
  draws := fun related mem request => related.draw (h _ mem).1 (h _ mem).2 request

/-- A tree and the tree bound to other providers are evaluated alike where one provider serves
both. -/
theorem Node.run_beside (node : Node) {f : ProviderId → ProviderId} {id : ProviderId}
    (sources sources' : Sources σ)
    (hasked : ∀ own, node.DrawsFrom own → sources.asked own = id ∧ sources'.asked (f own) = id)
    (hstate : sources.states id = sources'.states id) (context : Context) :
    (node.run context sources).outcome = ((node.rebind f).run context sources').outcome
      ∧ Machine.Beside id sources sources' (node.run context sources).machine
        ((node.rebind f).run context sources').machine :=
  node.run_follows (Machine.preserved_beside hasked _ _)
    ⟨rfl, rfl, fun _ h => (by cases h), rfl, hstate, fun _ _ => ⟨rfl, rfl⟩, rfl, rfl⟩

/-- Evaluations that one provider serves cannot be told apart, and leave the providers that were in
the same states at the start in the same states. -/
theorem Node.run_matches (node : Node) {f : ProviderId → ProviderId} {id : ProviderId}
    (sources sources' : Sources σ)
    (hasked : ∀ own, node.DrawsFrom own → sources.asked own = id ∧ sources'.asked (f own) = id)
    (hstate : sources.states id = sources'.states id) (context : Context) :
    (node.run context sources).Matches (fun other => sources.states other = sources'.states other)
      ((node.rebind f).run context sources') := by
  obtain ⟨houtcome, hmachine⟩ := node.run_beside sources sources' hasked hstate context
  refine ⟨houtcome, hmachine.context, hmachine.calls, fun other hstart => ?_⟩
  by_cases hother : other = id
  · rw [hother]
    exact hmachine.same
  · obtain ⟨hleft, hright⟩ := hmachine.others other hother
    exact hleft.trans (hstart.trans hright.symm)

/-- One provider serves a tree alone if it is in force wherever the tree draws. -/
theorem Node.run_asksOnly (node : Node) {id : ProviderId} (sources : Sources σ)
    (hasked : ∀ own, node.DrawsFrom own → sources.asked own = id) (context : Context) :
    (node.run context sources).AsksOnly id sources.states := by
  obtain ⟨-, hmachine⟩ := node.run_beside (f := fun own => own) sources sources
    (fun own hown => ⟨hasked own hown, hasked own hown⟩) rfl context
  exact ⟨hmachine.provider, hmachine.state, fun other hother => (hmachine.others other hother).1⟩

namespace Formula

/-- Under a provider that stands in, a formula is evaluated as the text bound to that one is. -/
theorem evaluateIn_rebind (f : Formula) (q : ProviderId) (states : ProviderId → σ)
    (context : Context) :
    (f.evaluateIn context ⟨states, some q⟩).Matches (fun _ => True)
      ((f.rebind fun _ => q).evaluateIn context (.own states)) := by
  have hmatches := f.root.run_matches (f := fun _ => q) ⟨states, some q⟩ (.own states)
    (fun _ _ => ⟨rfl, rfl⟩) rfl context
  exact { hmatches with states := fun id _ => hmatches.states id rfl }

/-- A formula is evaluated alike wherever its provider is in the same state. -/
theorem evaluateIn_of_state {p : ProviderId} {source : Text} {f : Formula}
    (hf : parse p source = .ok f) {states states' : ProviderId → σ} (hp : states p = states' p)
    (context : Context) :
    (f.evaluateIn context (.own states)).Matches (fun id => states id = states' id)
      (f.evaluateIn context (.own states')) := by
  have hown : ∀ own, f.root.DrawsFrom own → own = p ∧ own = p :=
    fun own hown => ⟨drawsFrom_of_parse hf hown, drawsFrom_of_parse hf hown⟩
  have hmatches := f.root.run_matches (f := id) (.own states) (.own states') hown hp context
  rwa [Node.rebind_id] at hmatches

/-- Under a provider that stands in, a text is evaluated as if it had been read with that one: with
the same outcome, the same context behind it and the same calls, all of them to the one that stands
in, and the same states of all providers. The text's own provider is asked nothing, so that whatever
is read with it and evaluated later goes as it would have gone. Where nobody stands in, every call
goes to the text's own provider, which all random nodes hold. -/
theorem evaluateIn_substitute {p : ProviderId} {source : Text} {f : Formula}
    (hf : parse p source = .ok f) (q : ProviderId) :
    (∀ own, f.root.DrawsFrom own → own = p)
    ∧ ∃ g, parse q source = .ok g
      ∧ ∀ (states : ProviderId → σ) (context : Context),
        (f.evaluateIn context ⟨states, some q⟩).Matches (fun _ => True)
            (g.evaluateIn context (.own states))
          ∧ (f.evaluateIn context ⟨states, some q⟩).AsksOnly q states
          ∧ (f.evaluateIn context (.own states)).AsksOnly p states
          ∧ (p ≠ q → ∀ text later, parse p text = .ok later → ∀ context',
            (later.evaluateIn context'
                (.own (f.evaluateIn context ⟨states, some q⟩).sources.states)).Matches (· ≠ q)
              (later.evaluateIn context' (.own states))) := by
  have hown : ∀ own, f.root.DrawsFrom own → own = p := fun own hown => drawsFrom_of_parse hf hown
  refine ⟨hown, f.rebind fun _ => q, parse_rebind (f := fun _ => q) hf, fun states context => ?_⟩
  have hsubstitute : (f.evaluateIn context ⟨states, some q⟩).AsksOnly q states :=
    f.root.run_asksOnly ⟨states, some q⟩ (fun _ _ => rfl) context
  refine ⟨f.evaluateIn_rebind q states context, hsubstitute,
    f.root.run_asksOnly (.own states) hown context, ?_⟩
  intro hne text later hlater context'
  have hlater := evaluateIn_of_state hlater (hsubstitute.others p hne) context'
  exact { hlater with states := fun id hid => hlater.states id (hsubstitute.others id hid) }

/-- The second draw is bounded by the first. With the formula's own provider, at a quarter, and with
one at a half in its place, the calls differ in more than the provider. -/
theorem evaluateIn_substitute_nested :
    ∃ (f g : Formula) (states : ProviderId → FixedFraction),
      parse ⟨0⟩ (Text.ofString "x = random(); randf(x)") = .ok f
      ∧ parse ⟨1⟩ (Text.ofString "x = random(); randf(x)") = .ok g
      ∧ states = (fun id => if id = ⟨0⟩ then ⟨0.25⟩ else .half)
      ∧ (f.evaluateIn .empty ⟨states, some ⟨1⟩⟩).Matches (fun _ => True)
        (g.evaluateIn .empty (.own states))
      ∧ (f.evaluateIn .empty ⟨states, some ⟨1⟩⟩).AsksOnly ⟨1⟩ states
      ∧ (f.evaluateIn .empty (.own states)).AsksOnly ⟨0⟩ states
      ∧ (f.evaluateIn .empty ⟨states, some ⟨1⟩⟩).calls
        = [⟨⟨1⟩, .fraction⟩, ⟨⟨1⟩, .below 0.5⟩]
      ∧ (f.evaluateIn .empty (.own states)).calls
        = [⟨⟨0⟩, .fraction⟩, ⟨⟨0⟩, .below 0.25⟩] := by
  have hf : parse ⟨0⟩ (Text.ofString "x = random(); randf(x)")
      = .ok ⟨Text.ofString "x = random(); randf(x)",
        .sequence [.assign .set (Text.ofString "x") (.randomValue ⟨0⟩),
          .randomBelow ⟨0⟩ (.read (Text.ofString "x"))], []⟩ := rfl
  obtain ⟨-, g, hg, hrun⟩ := evaluateIn_substitute (σ := FixedFraction) hf ⟨1⟩
  obtain ⟨hmatches, hsubstitute, hown, -⟩ :=
    hrun (fun id => if id = ⟨0⟩ then ⟨0.25⟩ else .half) .empty
  exact ⟨_, g, _, hf, hg, rfl, hmatches, hsubstitute, hown, rfl, rfl⟩

end Formula

end Formulary
