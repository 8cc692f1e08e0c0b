import Formulary.Host.Exchange
import Formulary.Host.Running

/-!
# Commands to a host

Every operation on a host as a value, so that a history of a host is a list of commands.

- `Host.perform` carries out one command, and `Host.performAll` a list of them.
-/

namespace Formulary

/-- A command to a host. -/
inductive Command where
  | register (id expression : Text)
  | tryRegister (id expression : Text)
  | registerMany (definitions : List Definition)
  | remove (id : Text)
  | clear
  | evaluate (id : Text) (bindings : Bindings)
  | evaluateEntries (id : Text) (entries : List (Text × Number))
  | evaluateBatch (id : Text) (sets : List Bindings)
  | evaluateMultiple (ids : List Text) (bindings : Bindings)
  | tryEvaluate (id : Text) (bindings : Bindings)
  | prepare (id : Text)
  | clearPools
  | setPooling (enabled : Bool)
  | stats
  | loadText (text : Text)
  | loadCompressed (bytes : List UInt8)
  | loadFile (path : Text)
  | document (ids : Option (List Text))
  | exportText (ids : Option (List Text))
  | exportCompressed (ids : Option (List Text))
  | exportFile (path : Text) (ids : Option (List Text))

/-- What a command gives. -/
inductive Reply where
  | done
  | flag (value : Bool)
  | count (value : Nat)
  | value (value : Number)
  | values (list : List Number)
  | named (results : OrderedMap Number)
  | text (value : Text)
  | bytes (list : List UInt8)
  | document (value : Document)
  | compiled (result : Except ParseError Formula)
  | evaluated (result : Except RunFault Number)

namespace Host

variable {σ : Type} [RandomProvider σ]

/-- A command carried out. -/
def perform : Command → Action σ Reply
  | .register id expression => .flag <$> register id expression
  | .tryRegister id expression => .compiled <$> tryRegister id expression
  | .registerMany definitions => .count <$> registerMany definitions
  | .remove id => .flag <$> remove id
  | .clear => (fun _ => .done) <$> clear
  | .evaluate id bindings => .value <$> evaluate id bindings
  | .evaluateEntries id entries => .value <$> evaluateEntries id entries
  | .evaluateBatch id sets => .values <$> evaluateBatch id sets
  | .evaluateMultiple ids bindings => .named <$> evaluateMultiple ids bindings
  | .tryEvaluate id bindings => .evaluated <$> tryEvaluate id bindings
  | .prepare id => .flag <$> prepare id
  | .clearPools => (fun _ => .done) <$> clearPools
  | .setPooling enabled => (fun _ => .flag enabled) <$> setPooling enabled
  | .stats => .text <$> stats
  | .loadText text => .count <$> loadText text
  | .loadCompressed bytes => .count <$> loadCompressed bytes
  | .loadFile path => .count <$> loadFile path
  | .document ids => .document <$> document ids
  | .exportText ids => .text <$> exportText ids
  | .exportCompressed ids => .bytes <$> exportCompressed ids
  | .exportFile path ids => .flag <$> exportFile path ids

/-- Commands carried out in turn. -/
def performAll : List Command → Action σ (List Reply)
  | [] => return []
  | command :: rest => do
    let reply ← perform command
    let replies ← performAll rest
    return reply :: replies

end Host

end Formulary
