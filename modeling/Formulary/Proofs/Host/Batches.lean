import Formulary.Proofs.Host.Running

/-!
# Evaluating once, in batches and by several ids

A host evaluates a formula in four ways, which take a failure differently. One reports it to the
caller, one logs it and gives zero, one stops a batch at it, and one goes on with the next formula.
All four leave the host as the tries one after the other leave it: only the providers move, and only
by the draws of the evaluations that are made.

- `Action.forEach` carries out an operation for each of some arguments in turn.
- `LogsError` is a log of one error.
- `Host.Unwraps` tells an evaluation by the try of it, and `Host.Batched` a batch by the tries of its
  sets; `Host.evaluateSets_batched` follows the loop of a batch.
- `Host.told_by_tries` puts the ways side by side.
-/

namespace Formulary

namespace Action

variable {σ α β : Type}

/-- An operation carried out for each of some arguments, one after the other. -/
def forEach (operation : α → Action σ β) : List α → Action σ (List β)
  | [] => return []
  | argument :: rest => do
    let value ← operation argument
    let values ← forEach operation rest
    return value :: values

/-- The rest of the arguments is taken on the host that the first one left. -/
theorem forEach_cons (operation : α → Action σ β) (argument : α) (rest : List α) (host : Host σ) :
    forEach operation (argument :: rest) host
      = ⟨(operation argument host).value
          :: (forEach operation rest (operation argument host).host).value,
        (forEach operation rest (operation argument host).host).host,
        (operation argument host).log ++ (forEach operation rest (operation argument host).host).log,
        (operation argument host).calls
          ++ (forEach operation rest (operation argument host).host).calls⟩ := by
  rw [forEach, bind_apply, bind_apply]
  show Outcome.mk _ _ (_ ++ (_ ++ [])) (_ ++ (_ ++ [])) = _
  rw [List.append_nil, List.append_nil]
  rfl

theorem length_forEach (operation : α → Action σ β) (arguments : List α) (host : Host σ) :
    (forEach operation arguments host).value.length = arguments.length := by
  induction arguments generalizing host with
  | nil => rfl
  | cons argument rest ih => rw [forEach_cons, List.length_cons, List.length_cons, ih]

end Action

/-- A log that holds one error and nothing else, and the error ends in a message. A logger that drops
messages leaves no line of it. -/
def LogsError (logger : Option Logger) (message : Text) (log : List LogLine) : Prop :=
  if logger = some .silent then log = []
  else ∃ opening, log = [⟨.error, opening ++ message⟩]

theorem logsError_write (component : Component) (logger : Option Logger) (opening message : Text) :
    LogsError logger message
      ((component.logger logger).write .error (opening ++ message)) := by
  rw [LogsError]
  split
  · rename_i hsilent
    rw [hsilent]
    rfl
  · rename_i hloud
    rcases logger with _ | ⟨⟩ | ⟨tag⟩ | ⟨⟩
    · exact ⟨Text.concat ["[", component.tag, "] "] ++ opening, by
        simp [Component.logger, Logger.write, Text.concat]⟩
    · exact ⟨opening, rfl⟩
    · exact ⟨Text.concat ["[", tag, "] "] ++ opening, by
        simp [Component.logger, Logger.write, Text.concat]⟩
    · exact absurd rfl hloud

namespace Host

open Formulary.Action

variable {σ : Type}

/-- An evaluation told by the try of it: the value, or zero and one error that ends in the message of
the fault. The try logs nothing, and both leave the same host behind the same draws. -/
inductive Unwraps (logger : Option Logger) :
    Outcome σ (Except RunFault Number) → Outcome σ Number → Prop where
  | value (value : Number) (behind : Host σ) (calls : List Call) :
      Unwraps logger ⟨.ok value, behind, [], calls⟩ ⟨value, behind, [], calls⟩
  | fault (fault : RunFault) (behind : Host σ) (calls : List Call) {log : List LogLine}
      (logged : LogsError logger fault.message log) :
      Unwraps logger ⟨.error fault, behind, [], calls⟩ ⟨0, behind, log, calls⟩

variable [RandomProvider σ]

/-- A batch told by the tries of its sets, made one after the other on the host. -/
inductive Batched (id : Text) (sets : List Bindings) (host : Host σ) :
    Outcome σ (List Number) → Prop where
  /-- Without a formula every try would fail, and none is made. -/
  | unknown {log : List LogLine} (absent : host.registry.get? id = none)
      (fails : ∀ bindings, tryEvaluate id bindings host = ⟨.error (.notFound id), host, [], []⟩)
      (logged : LogsError host.logger (RunFault.notFound id).message log) :
      Batched id sets host ⟨List.replicate sets.length 0, host, log, []⟩
  /-- All tries succeed. -/
  | complete {f : Formula} {values : List Number} {behind : Host σ} {calls : List Call}
      (registered : host.registry.get? id = some f)
      (tried : forEach (tryEvaluate id) sets host = ⟨values.map .ok, behind, [], calls⟩) :
      Batched id sets host ⟨values, behind, [], calls⟩
  /-- A try fails behind some that succeed, and no more tries are made. -/
  | stopped {f : Formula} {before later : List Bindings} {bindings : Bindings}
      {values : List Number} {fault : RunFault} {behind : Host σ} {calls : List Call}
      {log : List LogLine} (registered : host.registry.get? id = some f)
      (split : sets = before ++ bindings :: later)
      (tried : forEach (tryEvaluate id) (before ++ [bindings]) host
        = ⟨values.map .ok ++ [.error fault], behind, [], calls⟩)
      (logged : LogsError host.logger fault.message log) :
      Batched id sets host ⟨values ++ List.replicate (later.length + 1) 0, behind, log, calls⟩

/-! ## Single evaluations -/

theorem lookup_of_unknown {σ : Type} {host : Host σ} {id : Text}
    (h : host.registry.get? id = none) :
    lookup id host = ⟨none, host,
      (Component.runner.logger host.logger).write .error (RunFault.notFound id).message, []⟩ := by
  have hinspect : (Action.inspect fun host : Host σ => host.registry.get? id) host
      = ⟨none, host, [], []⟩ := by rw [Action.inspect, h]
  rw [lookup, bind_of_quiet hinspect]
  exact congrArg (Outcome.mk _ _ · _) (List.append_nil _)

theorem evaluate_of_unknown {host : Host σ} {id : Text} (h : host.registry.get? id = none)
    (bindings : Bindings) :
    evaluate id bindings host = ⟨0, host,
      (Component.runner.logger host.logger).write .error (RunFault.notFound id).message, []⟩ := by
  rw [evaluate, bind_apply, lookup_of_unknown h]
  exact congrArg (Outcome.mk _ _ · _) (List.append_nil _)

theorem tryEvaluate_of_unknown {host : Host σ} {id : Text} (h : host.registry.get? id = none)
    (bindings : Bindings) :
    tryEvaluate id bindings host = ⟨.error (.notFound id), host, [], []⟩ := by
  have hinspect : (Action.inspect fun host : Host σ => host.registry.get? id) host
      = ⟨none, host, [], []⟩ := by rw [Action.inspect, h]
  rw [tryEvaluate, bind_of_quiet hinspect]
  rfl

theorem runIn_ofBindings {host : Host σ} {f : Formula} {bindings : Bindings} {run : Run σ}
    (hrun : f.evaluate bindings (.own host.providers) = run) :
    runIn f (Context.ofBindings bindings) host
      = ⟨(run.outcome, run.context), { host with providers := run.sources.states }, [], run.calls⟩ := by
  rw [← hrun]
  rfl

/-- A try runs the formula in a new context of the bindings and changes nothing but the providers. -/
theorem tryEvaluate_of_registered {host : Host σ} {id : Text} {f : Formula}
    (h : host.registry.get? id = some f) (bindings : Bindings) {run : Run σ}
    (hrun : f.evaluate bindings (.own host.providers) = run) :
    tryEvaluate id bindings host
      = ⟨run.outcome.mapError .failed, { host with providers := run.sources.states }, [], run.calls⟩ := by
  have hinspect : (Action.inspect fun host : Host σ => host.registry.get? id) host
      = ⟨some f, host, [], []⟩ := by rw [Action.inspect, h]
  rw [tryEvaluate, bind_of_quiet hinspect]
  dsimp only
  rw [bind_apply, runIn_ofBindings hrun]
  cases run.outcome with
  | ok value => exact congrArg (Outcome.mk _ _ _) (List.append_nil _)
  | error e => exact congrArg (Outcome.mk _ _ _) (List.append_nil _)

/-- An evaluation does what the try of it does, and takes the fault from the caller. -/
theorem evaluate_unwraps (id : Text) (bindings : Bindings) (host : Host σ) :
    Unwraps host.logger (tryEvaluate id bindings host) (evaluate id bindings host) := by
  cases h : host.registry.get? id with
  | none =>
      rw [tryEvaluate_of_unknown h, evaluate_of_unknown h]
      exact .fault _ _ _ (logsError_write .runner host.logger [] _)
  | some f =>
      rw [tryEvaluate_of_registered h bindings rfl, evaluate_of_registered h bindings rfl]
      generalize f.evaluate bindings (.own host.providers) = run
      rw [Run.value, Run.lines]
      cases run.outcome with
      | ok value => exact .value _ _ _
      | error e =>
          refine .fault (.failed e) _ _ ?_
          have hopening := logsError_write .runner host.logger
            (Text.concat ["Error evaluating formula", " '", id, "': "]) e.message
          rwa [Text.concat, ← List.flatten_concat] at hopening

/-! ## Batches -/

section Sets

variable {f : Formula} {host : Host σ} {bindings : Bindings} {run : Run σ}

/-- Behind a set that succeeds, the loop goes on with the providers that it left. -/
theorem evaluateSets_cons_of_ok (hrun : f.evaluate bindings (.own host.providers) = run)
    {value : Number} (hok : run.outcome = .ok value) (id : Text) (rest : List Bindings)
    {o : Outcome σ (List Number)}
    (ho : evaluateSets id f rest { host with providers := run.sources.states } = o) :
    evaluateSets id f (bindings :: rest) host
      = ⟨value :: o.value, o.host, o.log, run.calls ++ o.calls⟩ := by
  rw [evaluateSets, bind_apply, runIn_ofBindings hrun, hok]
  dsimp only
  rw [bind_apply, ho]
  show Outcome.mk _ _ (o.log ++ []) (_ ++ (o.calls ++ [])) = _
  rw [List.append_nil, List.append_nil]
  rfl

/-- At a set that fails, the loop ends. -/
theorem evaluateSets_cons_of_error (hrun : f.evaluate bindings (.own host.providers) = run)
    {e : EvaluationError} (herror : run.outcome = .error e) (id : Text) (rest : List Bindings) :
    evaluateSets id f (bindings :: rest) host
      = ⟨0 :: rest.map (fun _ => 0), { host with providers := run.sources.states },
        (Component.runner.logger host.logger).write .error
          (Text.concat ["Error in batch evaluation of", " '", id, "': ", e.message]), run.calls⟩ := by
  rw [evaluateSets, bind_apply, runIn_ofBindings hrun, herror]
  dsimp only
  rw [bind_apply]
  show Outcome.mk _ _ ((_ ++ []) ++ []) (_ ++ []) = _
  rw [List.append_nil, List.append_nil, List.append_nil]
  rfl

end Sets

/-- One more set before a batch: if its try succeeds, the batch is the one behind it. -/
theorem Batched.cons {id : Text} {f : Formula} {host behind : Host σ} {bindings : Bindings}
    {value : Number} {calls : List Call} {sets : List Bindings} {o : Outcome σ (List Number)}
    (h : Batched id sets behind o) (registered : host.registry.get? id = some f)
    (registered' : behind.registry.get? id = some f) (hlogger : behind.logger = host.logger)
    (htry : tryEvaluate id bindings host = ⟨.ok value, behind, [], calls⟩) :
    Batched id (bindings :: sets) host ⟨value :: o.value, o.host, o.log, calls ++ o.calls⟩ := by
  cases h with
  | unknown absent =>
      rw [absent] at registered'
      cases registered'
  | complete _ tried =>
      refine .complete registered ?_
      rw [forEach_cons, htry, tried]
      rfl
  | @stopped _ before later failing values fault last more log _ split tried logged =>
      have htried : forEach (tryEvaluate id) (bindings :: before ++ [failing]) host
          = ⟨(value :: values).map .ok ++ [.error fault], last, [], calls ++ more⟩ := by
        rw [List.cons_append, forEach_cons, htry, tried]
        rfl
      rw [hlogger] at logged
      exact .stopped registered (congrArg (bindings :: ·) split) htried logged

/-- The loop of a batch over the sets of a registered formula. -/
theorem evaluateSets_batched {id : Text} {f : Formula} (sets : List Bindings) {host : Host σ}
    (h : host.registry.get? id = some f) :
    Batched id sets host (evaluateSets id f sets host) := by
  -- the host moves along the sets, and of it only the providers change
  induction sets generalizing host with
  | nil =>
      have hnone : forEach (tryEvaluate id) [] host = ⟨[].map .ok, host, [], []⟩ := rfl
      exact .complete h hnone
  | cons bindings rest ih =>
      generalize hrun : f.evaluate bindings (.own host.providers) = run
      have htry := tryEvaluate_of_registered h bindings hrun
      cases houtcome : run.outcome with
      | ok value =>
          rw [houtcome] at htry
          rw [evaluateSets_cons_of_ok hrun houtcome id rest rfl]
          have hrest : Batched id rest { host with providers := run.sources.states } _ := ih h
          exact hrest.cons h h rfl htry
      | error e =>
          rw [houtcome] at htry
          have hopening := logsError_write .runner host.logger
            (Text.concat ["Error in batch evaluation of", " '", id, "': "]) e.message
          rw [Text.concat, ← List.flatten_concat] at hopening
          have htried : forEach (tryEvaluate id) ([] ++ [bindings]) host
              = ⟨[].map .ok ++ [.error (.failed e)],
                { host with providers := run.sources.states }, [], run.calls⟩ := by
            rw [List.nil_append, forEach_cons, htry]
            exact congrArg (Outcome.mk _ _ _) (List.append_nil _)
          rw [evaluateSets_cons_of_error hrun houtcome, List.map_const']
          have hsplit : bindings :: rest = [] ++ bindings :: rest := rfl
          exact .stopped h hsplit htried hopening

/-- A batch is told by the tries of its sets. -/
theorem evaluateBatch_batched (id : Text) (sets : List Bindings) (host : Host σ) :
    Batched id sets host (evaluateBatch id sets host) := by
  cases h : host.registry.get? id with
  | none =>
      have hbatch : evaluateBatch id sets host = ⟨List.replicate sets.length 0, host,
          (Component.runner.logger host.logger).write .error (RunFault.notFound id).message, []⟩ := by
        rw [evaluateBatch, bind_apply, lookup_of_unknown h, ← List.map_const']
        exact congrArg (Outcome.mk _ _ · _) (List.append_nil _)
      rw [hbatch]
      exact .unknown h (tryEvaluate_of_unknown h) (logsError_write .runner host.logger [] _)
  | some f =>
      rw [evaluateBatch, bind_of_quiet (lookup_of_registered h)]
      exact evaluateSets_batched sets h

/-- A batch gives one value for each set. -/
theorem Batched.length_value {id : Text} {sets : List Bindings} {host : Host σ}
    {o : Outcome σ (List Number)} (h : Batched id sets host o) : o.value.length = sets.length := by
  have hlength := fun arguments => length_forEach (tryEvaluate id) arguments host
  cases h with
  | unknown => exact List.length_replicate
  | complete _ tried =>
      have hvalues := hlength sets
      rwa [tried, List.length_map] at hvalues
  | @stopped _ before later bindings values _ _ _ _ _ split tried _ =>
      have hvalues := hlength (before ++ [bindings])
      rw [tried, List.length_append, List.length_append, List.length_map] at hvalues
      rw [split, List.length_append, List.length_append, List.length_replicate, List.length_cons]
      simp only [List.length_singleton] at hvalues
      omega

/-! ## Several formulas -/

/-- The formulas are evaluated in turn, and each value is written under its id. -/
theorem evaluateEach_apply (bindings : Bindings) (ids : List Text) (results : OrderedMap Number)
    (host : Host σ) {o : Outcome σ (List Number)}
    (ho : forEach (fun id => evaluate id bindings) ids host = o) :
    evaluateEach bindings ids results host
      = ⟨results.insertAll (ids.zip o.value), o.host, o.log, o.calls⟩ := by
  subst ho
  induction ids generalizing results host with
  | nil => rfl
  | cons id rest ih =>
      rw [evaluateEach, bind_apply, ih, forEach_cons]
      rfl

/-- The ways to evaluate tell one story. A batch gives one value for each of its sets and is told by
the tries of them; an evaluation is told by the try of it; and several formulas are evaluated in
turn, where a repeated id keeps its first place and takes its last value. -/
theorem told_by_tries (host : Host σ) (id : Text) (sets : List Bindings)
    (ids : List Text) (bindings : Bindings) :
    (Batched id sets host (evaluateBatch id sets host)
        ∧ (evaluateBatch id sets host).value.length = sets.length)
      ∧ Unwraps host.logger (tryEvaluate id bindings host) (evaluate id bindings host)
      ∧ ∃ values behind log calls,
        forEach (fun id => evaluate id bindings) ids host = ⟨values, behind, log, calls⟩
          ∧ values.length = ids.length
          ∧ ∃ results, evaluateMultiple ids bindings host = ⟨results, behind, log, calls⟩
            ∧ results.keys = ids.eraseDups
            ∧ ∀ name, results.get? name
              = ((ids.zip values).reverse.find? (fun pair => pair.1 = name)).map (·.2) := by
  have hbatched := evaluateBatch_batched id sets host
  refine ⟨⟨hbatched, hbatched.length_value⟩, evaluate_unwraps id bindings host,
    _, _, _, _, rfl, length_forEach _ ids host, _, evaluateEach_apply bindings ids .empty host rfl,
    ?_, ?_⟩
  · have hkeys : (ids.zip (forEach (fun id => evaluate id bindings) ids host).value).map (·.1) = ids :=
      List.map_fst_zip (Nat.le_of_eq (length_forEach _ ids host).symm)
    rw [OrderedMap.keys_insertAll, hkeys]
    show (ids.filter fun _ => true).eraseDups = ids.eraseDups
    rw [List.filter_eq_self.mpr fun _ _ => rfl]
  · intro name
    rw [OrderedMap.get?_insertAll, OrderedMap.get?_empty, Option.or_none]

end Host

end Formulary
