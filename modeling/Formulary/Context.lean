import Formulary.Number.Dyadic
import Formulary.OrderedMap

/-!
# Contexts and bindings

A context holds the values of names during an evaluation. Bindings are what a caller hands over to
start one: pairs that arrive in order, or a record, which lists index-like names first.

- `Bindings.entries` gives the pairs in the order in which they are taken over.
- `Context.assign` copies bindings in, `Context.reset` empties a context first, and
  `Context.ofBindings` starts a new one.
-/

namespace Formulary

/-- The values of names, in order of first arrival. -/
abbrev Context := OrderedMap Number

/-- The number that a text writes as the index of an array: decimal digits without a leading zero,
at most 2^32 - 2. -/
def Text.arrayIndex? (t : Text) : Option Nat :=
  let value := t.decimalValue
  if t.all CodeUnit.isDigit && t = Text.ofNat value && value ≤ Nat.pow 2 32 - 2 then some value else none

/-- What a caller binds names to. -/
inductive Bindings where
  /-- Pairs in order of arrival. -/
  | pairs (entries : List (Text × Number))
  /-- The fields of a record. -/
  | fields (entries : List (Text × Number))

namespace Bindings

/-- No bindings. -/
def none : Bindings := .pairs []

/-- Entries with index-like names in ascending order, then the others as they stand. -/
def indicesFirst (entries : List (Text × Number)) : List (Text × Number) :=
  let indexed := entries.filterMap (fun e => e.1.arrayIndex?.map (fun i => (i, e)))
  let others := entries.filter (fun e => e.1.arrayIndex?.isNone)
  (indexed.mergeSort (fun a b => a.1 ≤ b.1)).map (·.2) ++ others

/-- The pairs in the order in which they are taken over. A repeated name keeps its first place and
takes its last value. -/
def entries : Bindings → List (Text × Number)
  | .pairs list => (OrderedMap.ofList list).entries
  | .fields list => indicesFirst (OrderedMap.ofList list).entries

end Bindings

namespace Context

/-- The context without names. -/
def empty : Context := OrderedMap.empty

/-- The context with bindings copied in. -/
def assign (context : Context) (bindings : Bindings) : Context :=
  context.insertAll bindings.entries

/-- The context emptied, then with bindings copied in. -/
def reset (context : Context) (bindings : Bindings) : Context :=
  assign { context with entries := [] } bindings

/-- A new context of some bindings. -/
def ofBindings (bindings : Bindings) : Context := assign empty bindings

end Context

end Formulary
