import Formulary.Proofs.Evaluation.Locality
import Formulary.Proofs.Host.Running

/-!
# Evaluating under complete entries

A host has three ways to evaluate a formula: in a reused context, in an empty context to which the
entries are written, and in a new context of bindings. They fill their contexts with different names
in different orders. Where the entries name all inputs of the formula, no name tells the contexts
apart, and since an evaluation looks names up and does nothing else with a context, nothing that comes
of it shows which way was taken.

- `Context.get?_ofBindings_pairs` and `Formula.get?_freshContext_of_named` look a name up in the
  contexts.
- `Host.evaluateEntries_gives` is the statement about hosts.
-/

namespace Formulary

namespace Context

/-- Entries that are written to an empty context make the context of these bindings. -/
theorem insertAll_empty (entries : List (Text × Number)) :
    OrderedMap.insertAll empty entries = ofBindings (.pairs entries) :=
  (OrderedMap.ofList_entries (distinct_ofList entries)).symm

/-- A name has the value of the last entry for it. -/
theorem get?_ofBindings_pairs (entries : List (Text × Number)) (name : Text) :
    (ofBindings (.pairs entries)).get? name
      = (entries.reverse.find? (fun entry => entry.1 = name)).map (·.2) := by
  rw [← insertAll_empty, OrderedMap.get?_insertAll, empty, OrderedMap.get?_empty, Option.or_none]

end Context

/-- If the entries name all inputs, it does not show that these were zero before. -/
theorem Formula.get?_freshContext_of_named (f : Formula) {entries : List (Text × Number)}
    (h : ∀ name ∈ f.requiredInputs, name ∈ entries.map (·.1)) (name : Text) :
    (f.freshContext entries).get? name = (Context.ofBindings (.pairs entries)).get? name := by
  rw [get?_freshContext, Context.get?_ofBindings_pairs]
  by_cases hinput : name ∈ f.requiredInputs
  · rw [Option.or_of_isSome]
    rw [Option.isSome_map]
    exact OrderedMap.isSome_find?_reverse (h name hinput)
  · rw [if_neg hinput, Option.or_none]

namespace Host

/-- A host makes the same of evaluations that agree. -/
theorem Gives.of_agrees {σ : Type} {o : Outcome σ Number} {host : Host σ} {id : Text}
    {run run' : Run σ} {names : Text → Prop} (h : Gives o host id run)
    (hagrees : Run.Agrees names run run') : Gives o host id run' where
  value := by rw [h.value, Run.value, Run.value, hagrees.outcome]
  log := by rw [h.log, Run.lines, Run.lines, hagrees.outcome]
  calls := by rw [h.calls, hagrees.calls]
  providers := by rw [h.providers, hagrees.sources]
  registry := h.registry

variable {σ : Type} [RandomProvider σ]

/-- Whether contexts are reused or not, an evaluation under entries that name all inputs of the
formula gives what the evaluation under these entries as bindings gives: the same value, the same
lines in the log, the same calls of the provider, and the same providers behind. -/
theorem evaluateEntries_gives {host : Host σ} {id : Text} {f : Formula}
    (hregistered : host.registry.get? id = some f) {entries : List (Text × Number)}
    (hinputs : ∀ name ∈ f.requiredInputs, name ∈ entries.map (·.1)) :
    Gives (evaluateEntries id entries { host with pooling := true }) host id
        (f.evaluate (.pairs entries) (.own host.providers))
      ∧ Gives (evaluateEntries id entries { host with pooling := false }) host id
        (f.evaluate (.pairs entries) (.own host.providers))
      ∧ Gives (evaluate id (.pairs entries) host) host id
        (f.evaluate (.pairs entries) (.own host.providers))
      ∧ ∀ name, (Context.ofBindings (.pairs entries)).get? name
        = (entries.reverse.find? (fun entry => entry.1 = name)).map (·.2) := by
  refine ⟨?_, ?_, ?_, Context.get?_ofBindings_pairs entries⟩
  · have hfresh : Run.Agrees f.root.Mentions
        (f.evaluateIn (f.freshContext entries) (.own host.providers))
        (f.evaluate (.pairs entries) (.own host.providers)) :=
      f.root.run_agrees (fun name _ => f.get?_freshContext_of_named hinputs name) _
    have hpooled : ({ host with pooling := true } : Host σ).registry.get? id = some f := hregistered
    refine Gives.of_agrees ?_ hfresh
    rw [evaluateEntries_of_registered hpooled entries rfl, startingContext_of_pooling rfl]
    exact ⟨rfl, rfl, rfl, rfl, rfl⟩
  · have hunpooled : ({ host with pooling := false } : Host σ).registry.get? id = some f := hregistered
    have hrun : f.evaluateIn (Context.empty.insertAll entries) (.own host.providers)
        = f.evaluate (.pairs entries) (.own host.providers) := by
      rw [Context.insertAll_empty]
      rfl
    rw [evaluateEntries_of_registered hunpooled entries hrun]
    exact ⟨rfl, rfl, rfl, rfl, rfl⟩
  · rw [evaluate_of_registered hregistered (.pairs entries) rfl]
    exact ⟨rfl, rfl, rfl, rfl, rfl⟩

/-- The formula adds to `a`, which is no input, and fails at `b`, which it assigns in a branch that is
not taken. An earlier formula under the id left both names in the kept context. -/
theorem evaluateEntries_gives_failure :
    ∃ (history : List Command) (host : Host FixedFraction) (f : Formula)
        (entries : List (Text × Number)) (run : Run FixedFraction),
      history = [.setPooling true,
        .register (Text.ofString "f") (Text.ofString "let a = x; let b = x; rand(a)"),
        .evaluateEntries (Text.ofString "f") [(Text.ofString "x", 5)],
        .register (Text.ofString "f") (Text.ofString "a += x; if (y) b = 1; b")]
      ∧ host = after ⟨0⟩ (fun _ => FixedFraction.half) none false history
      ∧ entries = [(Text.ofString "y", 0), (Text.ofString "x", 5), (Text.ofString "x", 1)]
      ∧ f.requiredInputs = [Text.ofString "x", Text.ofString "y"]
      ∧ run.outcome = .error (.missingVariable (Text.ofString "b"))
      ∧ Gives (evaluateEntries (Text.ofString "f") entries { host with pooling := true }) host
        (Text.ofString "f") run
      ∧ Gives (evaluateEntries (Text.ofString "f") entries { host with pooling := false }) host
        (Text.ofString "f") run
      ∧ Gives (evaluate (Text.ofString "f") (.pairs entries) host) host (Text.ofString "f") run := by
  obtain ⟨f, hf⟩ : ∃ f : Formula, f = ⟨Text.ofString "a += x; if (y) b = 1; b",
      .sequence [.assign .add (Text.ofString "a") (.read (Text.ofString "x")),
        .ifThen (.read (Text.ofString "y")) (.assign .set (Text.ofString "b") (.constant 1)),
        .read (Text.ofString "b")], [Text.ofString "x", Text.ofString "y"]⟩ := ⟨_, rfl⟩
  have hparse : Formula.parse ⟨0⟩ (Text.ofString "a += x; if (y) b = 1; b") = .ok f := by
    rw [hf]
    rfl
  have hinputs : f.requiredInputs = [Text.ofString "x", Text.ofString "y"] := by rw [hf]
  have hregistered : (after ⟨0⟩ (fun _ => FixedFraction.half) none false [.setPooling true,
      .register (Text.ofString "f") (Text.ofString "let a = x; let b = x; rand(a)"),
      .evaluateEntries (Text.ofString "f") [(Text.ofString "x", 5)],
      .register (Text.ofString "f") (Text.ofString "a += x; if (y) b = 1; b")]).registry.get?
        (Text.ofString "f") = some f := by
    rw [after, performAll_host_cons, performAll_host_cons, performAll_host_cons,
      performAll_host_cons, perform_register_of_parse hparse]
    · exact (OrderedMap.get?_insert _ (Text.ofString "f") _ f).trans (if_pos rfl)
    · rw [perform_provider, perform_provider, perform_provider]
      rfl
  have hnamed : ∀ name ∈ f.requiredInputs, name ∈ ([(Text.ofString "y", 0), (Text.ofString "x", 5),
      (Text.ofString "x", 1)] : List (Text × Number)).map (·.1) := by
    rw [hinputs]
    decide
  have hfails : ∀ sources : Sources FixedFraction, (f.evaluate (.pairs [(Text.ofString "y", 0),
      (Text.ofString "x", 5), (Text.ofString "x", 1)]) sources).outcome
        = .error (.missingVariable (Text.ofString "b")) := by
    intro sources
    rw [hf]
    rfl
  obtain ⟨hpooled, hunpooled, hdirect, -⟩ := evaluateEntries_gives hregistered hnamed
  exact ⟨_, _, f, _, _, rfl, rfl, rfl, hinputs, hfails _, hpooled, hunpooled, hdirect⟩

end Host

end Formulary
