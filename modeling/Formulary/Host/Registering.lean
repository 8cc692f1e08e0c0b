import Formulary.Host.Basic

/-!
# Registering formulas

- `Host.tryRegister` reports a text that is no formula to the caller, `Host.register` to the log.
- `Host.registerMany` registers definitions in turn and counts those that got in.
- `Host.clear` drops all formulas.
-/

namespace Formulary

namespace Host

variable {σ : Type}

/-- The formula of a text, registered under an id, or what is wrong with the text. -/
def tryRegister (id expression : Text) : Action σ (Except ParseError Formula) := fun host =>
  match host.registry.register? id expression with
  | .ok (f, registry) => ⟨.ok f, { host with registry }, [], []⟩
  | .error e => ⟨.error e, host, [], []⟩

/-- The report on a text that is no formula. -/
def registrationMessage (id : Text) (e : ParseError) : Text :=
  Text.concat ["Failed to register formula '", id, "': ", e.message]

/-- Whether a text could be registered under an id. -/
def register (id expression : Text) : Action σ Bool := do
  match ← tryRegister id expression with
  | .ok _ => return true
  | .error e =>
    Action.report .registry .error (registrationMessage id e)
    return false

/-- How many of some definitions could be registered. -/
def registerMany : List Definition → Action σ Nat
  | [] => return 0
  | d :: rest => do
    let registered ← register d.id d.expression
    let more ← registerMany rest
    return (if registered then more + 1 else more)

/-- Whether a formula was registered under an id, which is free afterwards. -/
def remove (id : Text) : Action σ Bool := do
  let known ← Action.inspect (fun host => host.registry.contains id)
  Action.change (fun host => { host with registry := host.registry.remove id })
  return known

/-- All formulas dropped. -/
def clear : Action σ Unit := do
  Action.change (fun host => { host with registry := .empty host.registry.provider })
  Action.report .registry .log "All formulas cleared"

end Host

end Formulary
