import Formulary.Proofs.Host.Editing

/-!
# Evaluating what is registered

An evaluation through a host gives the value of the formula that is registered, or zero and one line
in the log. Where contexts are reused, nothing of an earlier use shows: the context that is kept for
an id is emptied, and every input of the formula that is now registered is set to zero.

- `Run.value` and `Run.lines` are what a host makes of an evaluation.
- `Host.evaluate_of_registered` and `Host.evaluateEntries_of_registered` give all that comes of an
  evaluation through a host.
- `Formula.freshContext` is the context of an evaluation that nothing came before, and
  `Host.evaluateEntries_pooled` says that every evaluation in a reused context is one in it.
-/

namespace Formulary

/-- The value that a host takes an evaluation for: zero where it failed. -/
def Run.value {σ : Type} (run : Run σ) : Number :=
  match run.outcome with
  | .ok value => value
  | .error _ => 0

/-- The lines that a host logs for an evaluation: one where it failed. -/
def Run.lines {σ : Type} (run : Run σ) (logger : Option Logger) (id : Text) : List LogLine :=
  match run.outcome with
  | .ok _ => []
  | .error e => (Component.runner.logger logger).write .error
    (Text.concat ["Error evaluating formula", " '", id, "': ", e.message])

/-- The context of an evaluation that nothing came before: every input of the formula is zero, and
the entries are written to it in turn. -/
def Formula.freshContext (f : Formula) (entries : List (Text × Number)) : Context :=
  (Context.zero .empty f.requiredInputs).insertAll entries

/-- Of a context in which some names are zero and nothing else is known. -/
theorem Context.get?_zero (names : List Text) (name : Text) :
    (Context.zero .empty names).get? name = if name ∈ names then some 0 else none := by
  rw [Context.zero, OrderedMap.get?_insertAll, ← List.map_reverse, List.find?_map, Option.map_map]
  by_cases hmem : name ∈ names
  · have hsome : (names.reverse.find?
        ((fun pair : Text × Number => decide (pair.1 = name)) ∘ fun input => (input, 0))).isSome :=
      List.find?_isSome.mpr ⟨name, List.mem_reverse.mpr hmem, by simp⟩
    obtain ⟨input, hinput⟩ := Option.isSome_iff_exists.mp hsome
    rw [if_pos hmem, hinput]
    rfl
  · rw [if_neg hmem, List.find?_eq_none.mpr]
    · rfl
    · intro input hinput heq
      have hname : input = name := of_decide_eq_true heq
      exact hmem (List.mem_reverse.mp (hname ▸ hinput))

/-- A name has the value of the last entry for it; an input without an entry is zero, and no other
name has a value. -/
theorem Formula.get?_freshContext (f : Formula) (entries : List (Text × Number)) (name : Text) :
    (f.freshContext entries).get? name
      = ((entries.reverse.find? (fun entry => entry.1 = name)).map (·.2)).or
        (if name ∈ f.requiredInputs then some 0 else none) := by
  rw [freshContext, OrderedMap.get?_insertAll, Context.get?_zero]

namespace Host

variable {σ : Type}

theorem lookup_of_registered {host : Host σ} {id : Text} {f : Formula}
    (h : host.registry.get? id = some f) : lookup id host = ⟨some f, host, [], []⟩ := by
  have hinspect : (Action.inspect fun host : Host σ => host.registry.get? id) host
      = ⟨some f, host, [], []⟩ := by rw [Action.inspect, h]
  rw [lookup, Action.bind_of_quiet hinspect]
  rfl

theorem settle_apply (id : Text) (run : Run σ) (host : Host σ) :
    settle "Error evaluating formula" id run.outcome host
      = ⟨run.value, host, run.lines host.logger id, []⟩ := by
  rw [Run.value, Run.lines]
  cases run.outcome with
  | ok value => rfl
  | error e => exact congrArg (Outcome.mk _ _ · _) (List.append_nil _)

/-- The outcome of an operation that runs one formula for an id and gives what comes of it. -/
structure Gives (o : Outcome σ Number) (host : Host σ) (id : Text) (run : Run σ) : Prop where
  value : o.value = run.value
  log : o.log = run.lines host.logger id
  calls : o.calls = run.calls
  providers : o.host.providers = run.sources.states
  registry : o.host.registry = host.registry

variable [RandomProvider σ]

/-- An evaluation under bindings runs the formula in a new context of them and changes nothing but
the providers. -/
theorem evaluate_of_registered {host : Host σ} {id : Text} {f : Formula}
    (h : host.registry.get? id = some f) (bindings : Bindings) {run : Run σ}
    (hrun : f.evaluate bindings (.own host.providers) = run) :
    evaluate id bindings host
      = ⟨run.value, { host with providers := run.sources.states }, run.lines host.logger id,
        run.calls⟩ := by
  subst hrun
  rw [evaluate, Action.bind_of_quiet (lookup_of_registered h)]
  dsimp only
  rw [Action.bind_apply]
  dsimp only [runIn]
  rw [settle_apply, List.nil_append, List.append_nil]
  rfl

/-- An evaluation under entries runs the formula in the context that it starts from, which is kept
where contexts are reused. -/
theorem evaluateEntries_of_registered {host : Host σ} {id : Text} {f : Formula}
    (h : host.registry.get? id = some f) (entries : List (Text × Number)) {run : Run σ}
    (hrun : f.evaluateIn ((host.startingContext id f).insertAll entries) (.own host.providers) = run) :
    evaluateEntries id entries host
      = ⟨run.value,
        { host with
          providers := run.sources.states
          pools := if host.pooling then host.pools.insert id run.context else host.pools },
        run.lines host.logger id, run.calls⟩ := by
  subst hrun
  rw [evaluateEntries, Action.bind_of_quiet (lookup_of_registered h)]
  dsimp only
  rw [Action.bind_of_quiet rfl, Action.bind_apply]
  dsimp only [runIn]
  rw [Action.bind_of_quiet rfl, settle_apply, List.nil_append, List.append_nil]
  dsimp only
  cases host.pooling with
  | true => rfl
  | false => rfl

/-! ## Reused contexts -/

/-- The kept context is emptied before it is used. -/
theorem startingContext_of_pooling {σ : Type} {host : Host σ} (h : host.pooling = true) (id : Text)
    (f : Formula) : host.startingContext id f = Context.zero .empty f.requiredInputs := by
  rw [startingContext, if_pos h]
  rfl

/-- Whatever was done to a host before, an evaluation in a reused context is one of the formula that
is now registered, in the fresh context of its inputs and the entries. -/
theorem evaluateEntries_pooled (provider : ProviderId) (providers : ProviderId → σ)
    (logger : Option Logger) (pooling : Bool) (history : List Command) {id : Text} {f : Formula}
    (hregistered : (after provider providers logger pooling history).registry.get? id = some f)
    (hpooling : (after provider providers logger pooling history).pooling = true)
    (entries : List (Text × Number)) :
    Gives (evaluateEntries id entries (after provider providers logger pooling history))
        (after provider providers logger pooling history) id
        (f.evaluateIn (f.freshContext entries)
          (.own (after provider providers logger pooling history).providers))
      ∧ Formula.parse provider f.source = .ok f
      ∧ ∀ name, (f.freshContext entries).get? name
        = ((entries.reverse.find? (fun entry => entry.1 = name)).map (·.2)).or
          (if name ∈ f.requiredInputs then some 0 else none) := by
  have hparsed := (after_sound provider providers logger pooling history).parsed id f hregistered
  rw [after_provider] at hparsed
  refine ⟨?_, hparsed, f.get?_freshContext entries⟩
  rw [evaluateEntries_of_registered hregistered entries rfl, startingContext_of_pooling hpooling]
  exact ⟨rfl, rfl, rfl, rfl, rfl⟩

/-- The name `t` was bound by an earlier formula under the id and stayed in the kept context; as an
input of the formula that came in its place it is zero. -/
theorem evaluateEntries_pooled_replaced :
    ∃ (history : List Command) (host : Host FixedFraction) (f : Formula),
      history = [.setPooling true,
        .register (Text.ofString "f") (Text.ofString "let t = x; t + q"),
        .evaluateEntries (Text.ofString "f") [(Text.ofString "x", 5)],
        .register (Text.ofString "f") (Text.ofString "t + x"), .setPooling true]
      ∧ host = after ⟨0⟩ (fun _ => .half) none false history
      ∧ Formula.parse ⟨0⟩ (Text.ofString "t + x") = .ok f
      ∧ Gives (evaluateEntries (Text.ofString "f") [(Text.ofString "x", 1)] host) host
        (Text.ofString "f")
        (f.evaluateIn (f.freshContext [(Text.ofString "x", 1)]) (.own host.providers))
      ∧ (f.freshContext [(Text.ofString "x", 1)]).get? (Text.ofString "t") = some 0 := by
  obtain ⟨f, hf, hinputs⟩ : ∃ f, Formula.parse ⟨0⟩ (Text.ofString "t + x") = .ok f
      ∧ f.requiredInputs = [Text.ofString "t", Text.ofString "x"] := ⟨_, rfl, rfl⟩
  -- the last two commands settle what is registered and that contexts are reused
  have hlast : ∀ host : Host FixedFraction, host.registry.provider = ⟨0⟩ →
      (performAll [.register (Text.ofString "f") (Text.ofString "t + x"), .setPooling true] host).host
        = { host with registry := host.registry.insert (Text.ofString "f") f, pooling := true } := by
    intro host hprovider
    rw [performAll_host_cons, perform_register_of_parse hf _ hprovider]
    rfl
  have hpooled := evaluateEntries_pooled ⟨0⟩ (fun _ => FixedFraction.half) none false
    [.setPooling true, .register (Text.ofString "f") (Text.ofString "let t = x; t + q"),
      .evaluateEntries (Text.ofString "f") [(Text.ofString "x", 5)],
      .register (Text.ofString "f") (Text.ofString "t + x"), .setPooling true]
    (by
      rw [after, performAll_host_cons, performAll_host_cons, performAll_host_cons, hlast]
      · exact (OrderedMap.get?_insert _ (Text.ofString "f") _ f).trans (if_pos rfl)
      · rw [perform_provider, perform_provider, perform_provider]
        rfl)
    (by
      rw [after, performAll_host_cons, performAll_host_cons, performAll_host_cons, hlast]
      rw [perform_provider, perform_provider, perform_provider]
      rfl)
    [(Text.ofString "x", 1)]
  refine ⟨_, _, f, rfl, rfl, hf, hpooled.1, (hpooled.2.2 _).trans ?_⟩
  rw [hinputs]
  decide

end Host

end Formulary
