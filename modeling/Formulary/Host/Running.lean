import Formulary.Host.Basic

/-!
# Running registered formulas

A failed evaluation is logged and counts as zero. Where contexts are reused, one is kept for each
id; before every use it is emptied, and all inputs of the formula are set to zero.

- `Host.evaluate` evaluates under bindings, and `Host.evaluateEntries` under single entries, which
  is where contexts are reused.
- `Host.evaluateBatch` evaluates one formula several times and stops at the first failure;
  `Host.evaluateMultiple` evaluates several formulas.
- `Host.tryEvaluate` reports a failure to the caller.
-/

namespace Formulary

/-- Why a registered formula gives no value. -/
inductive RunFault where
  /-- No formula is registered under the id. -/
  | notFound (id : Text)
  /-- The evaluation failed. -/
  | failed (error : EvaluationError)
  deriving DecidableEq, Repr

/-- The wording of a run without value. -/
def RunFault.message : RunFault → Text
  | .notFound id => Text.concat ["Formula '", id, "' not found"]
  | .failed error => error.message

/-- The summary of the kept contexts. -/
def poolSummary (count : Nat) (pooling : Bool) : Text :=
  Text.concat ["Pooled: ", Text.ofNat count, ", Pooling: ",
    if pooling then "Enabled" else "Disabled"]

/-- A context in which some names are zero. -/
def Context.zero (context : Context) (names : List Text) : Context :=
  context.insertAll (names.map (fun name => (name, 0)))

namespace Host

variable {σ : Type} [RandomProvider σ]

/-- The formula under an id; an unknown id is logged. -/
def lookup {σ : Type} (id : Text) : Action σ (Option Formula) := do
  let found ← Action.inspect (fun host => host.registry.get? id)
  if found.isNone then Action.report .runner .error (RunFault.notFound id).message
  return found

/-- The evaluation of a formula in a context, with the provider that the formula is bound to. -/
def runIn (f : Formula) (context : Context) : Action σ (Except EvaluationError Number × Context) :=
  fun host =>
    let run := f.evaluateIn context (Sources.own host.providers)
    ⟨(run.outcome, run.context), { host with providers := run.sources.states }, [], run.calls⟩

/-- The value of an evaluation, or zero and a message that starts with `heading`. -/
def settle {σ : Type} (heading id : Text) : Except EvaluationError Number → Action σ Number
  | .ok value => return value
  | .error e => do
    Action.report .runner .error (Text.concat [heading, " '", id, "': ", e.message])
    return 0

/-- The value of a formula under bindings, or zero. -/
def evaluate (id : Text) (bindings : Bindings) : Action σ Number := do
  match ← lookup id with
  | none => return 0
  | some f =>
    let (outcome, _) ← runIn f (Context.ofBindings bindings)
    settle "Error evaluating formula" id outcome

/-- The context that an evaluation under single entries starts from: the kept one, emptied and with
the formula's inputs at zero, or an empty one where contexts are not reused. -/
def startingContext {σ : Type} (host : Host σ) (id : Text) (f : Formula) : Context :=
  if host.pooling then
    let kept : Context := (host.pools.get? id).getD .empty
    Context.zero (kept.reset .none) f.requiredInputs
  else .empty

/-- A context kept for an id, where contexts are reused. -/
def keep {σ : Type} (id : Text) (context : Context) : Action σ Unit :=
  Action.change (fun host =>
    if host.pooling then { host with pools := host.pools.insert id context } else host)

/-- The value of a formula under single entries, or zero. Where contexts are reused, an input that no
entry sets is zero. -/
def evaluateEntries (id : Text) (entries : List (Text × Number)) : Action σ Number := do
  match ← lookup id with
  | none => return 0
  | some f =>
    let start ← Action.inspect (fun host => host.startingContext id f)
    let (outcome, context) ← runIn f (start.insertAll entries)
    keep id context
    settle "Error evaluating formula" id outcome

/-- The values of a formula under several bindings. The first failure is logged, and its value and all
later ones are zero. -/
def evaluateSets (id : Text) (f : Formula) : List Bindings → Action σ (List Number)
  | [] => return []
  | bindings :: rest => do
    let (outcome, _) ← runIn f (Context.ofBindings bindings)
    match outcome with
    | .ok value =>
      let values ← evaluateSets id f rest
      return value :: values
    | .error e => do
      let zero ← settle "Error in batch evaluation of" id (.error e)
      return zero :: rest.map (fun _ => 0)

/-- The values of the formula under an id for several bindings. -/
def evaluateBatch (id : Text) (sets : List Bindings) : Action σ (List Number) := do
  match ← lookup id with
  | none => return sets.map (fun _ => 0)
  | some f => evaluateSets id f sets

/-- The values of several formulas under the same bindings, by id, added to `results`. -/
def evaluateEach (bindings : Bindings) : List Text → OrderedMap Number → Action σ (OrderedMap Number)
  | [], results => return results
  | id :: rest, results => do
    let value ← evaluate id bindings
    evaluateEach bindings rest (results.insert id value)

/-- The values of several formulas under the same bindings, by id. -/
def evaluateMultiple (ids : List Text) (bindings : Bindings) : Action σ (OrderedMap Number) :=
  evaluateEach bindings ids .empty

/-- The value of a formula under bindings, or why there is none. -/
def tryEvaluate (id : Text) (bindings : Bindings) : Action σ (Except RunFault Number) := do
  match ← Action.inspect (fun host => host.registry.get? id) with
  | none => return .error (.notFound id)
  | some f =>
    let (outcome, _) ← runIn f (Context.ofBindings bindings)
    match outcome with
    | .ok value => return .ok value
    | .error e => return .error (.failed e)

/-- Whether a context could be kept for an id ahead of its first use. -/
def prepare {σ : Type} (id : Text) : Action σ Bool := do
  match ← Action.inspect (fun host => host.registry.get? id) with
  | none =>
    Action.report .runner .error (Text.concat ["Cannot prepare formula '", id, "' - not found"])
    return false
  | some f =>
    Action.change (fun host =>
      if host.pools.contains id then host
      else { host with pools := host.pools.insert id (Context.zero .empty f.requiredInputs) })
    return true

/-- All kept contexts dropped. -/
def clearPools {σ : Type} : Action σ Unit :=
  Action.change (fun host => { host with pools := .empty })

/-- Whether contexts are reused from here on. -/
def setPooling {σ : Type} (enabled : Bool) : Action σ Unit :=
  Action.change (fun host => { host with pooling := enabled })

/-- The summary of the kept contexts. -/
def stats {σ : Type} : Action σ Text :=
  Action.inspect (fun host => poolSummary host.pools.size host.pooling)

end Host

end Formulary
