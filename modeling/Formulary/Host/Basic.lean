import Formulary.Files
import Formulary.Host.Logging
import Formulary.Host.Registry

/-!
# Hosts

A host holds a registry, contexts that are kept for reuse, the providers of randomness and the files
that it can reach. An operation on it gives a value and changes the host; what it logs and what it
asks of providers are recorded beside.

- `Action` is the type of operations; they are sequenced as steps of a monad, and their logs and
  calls are joined in order.
-/

namespace Formulary

/-- A host. -/
structure Host (σ : Type) where
  /-- The registered formulas. -/
  registry : Registry
  /-- The contexts kept for reuse, by the id of a formula. -/
  pools : OrderedMap Context
  /-- Whether contexts are reused. -/
  pooling : Bool
  /-- The present state of each provider. -/
  providers : ProviderId → σ
  /-- The logger that all components were given, if any. -/
  logger : Option Logger
  /-- The files in reach. -/
  files : FileStore

/-- What came of an operation. -/
structure Outcome (σ α : Type) where
  /-- The value. -/
  value : α
  /-- The host behind the operation. -/
  host : Host σ
  /-- What was logged. -/
  log : List LogLine
  /-- What was asked of providers. -/
  calls : List Call

/-- An operation on a host. -/
def Action (σ α : Type) := Host σ → Outcome σ α

namespace Action

variable {σ α β : Type}

/-- A value without any effect. -/
def give (value : α) : Action σ α := fun host => ⟨value, host, [], []⟩

/-- One operation after another. -/
def sequence (first : Action σ α) (next : α → Action σ β) : Action σ β := fun host =>
  let a := first host
  let b := next a.value a.host
  ⟨b.value, b.host, a.log ++ b.log, a.calls ++ b.calls⟩

instance : Monad (Action σ) where
  pure := give
  bind := sequence

/-- Something read off the host. -/
def inspect (view : Host σ → α) : Action σ α := fun host => ⟨view host, host, [], []⟩

/-- A change of the host. -/
def change (update : Host σ → Host σ) : Action σ Unit := fun host => ⟨(), update host, [], []⟩

/-- A message from a component. -/
def report (component : Component) (level : LogLevel) (message : Text) : Action σ Unit := fun host =>
  ⟨(), host, (component.logger host.logger).write level message, []⟩

end Action

namespace Host

/-- A new host whose formulas are bound to a provider. -/
def new {σ : Type} (provider : ProviderId) (providers : ProviderId → σ) (logger : Option Logger)
    (pooling : Bool) : Host σ where
  registry := .empty provider
  pools := .empty
  pooling := pooling
  providers := providers
  logger := logger
  files := .empty

end Host

end Formulary
