import Formulary.Formula
import Formulary.Library.Schema

/-!
# Registered formulas

A registry keeps formulas by id, in the order in which the ids first arrived. Only a text that is a
formula gets in; one that is not leaves the registry as it was.

- `Registry.register?` adds or replaces a formula.
- `Registry.entries` lists what is registered as definitions.
-/

namespace Formulary

/-- Formulas by id, all bound to one provider. -/
structure Registry where
  /-- The provider that formulas are bound to. -/
  provider : ProviderId
  /-- The formulas in order of arrival of their ids. -/
  formulas : OrderedMap Formula

namespace Registry

/-- The registry without formulas. -/
def empty (provider : ProviderId) : Registry := ⟨provider, .empty⟩

/-- The registry with a formula under an id. -/
def insert (r : Registry) (id : Text) (f : Formula) : Registry :=
  { r with formulas := r.formulas.insert id f }

/-- The formula of a text and the registry with it under an id, or what is wrong with the text. -/
def register? (r : Registry) (id expression : Text) : Except ParseError (Formula × Registry) := do
  let f ← Formula.parse r.provider expression
  return (f, r.insert id f)

/-- The formula under an id. -/
def get? (r : Registry) (id : Text) : Option Formula := r.formulas.get? id

/-- Whether a formula is registered under an id. -/
def contains (r : Registry) (id : Text) : Bool := r.formulas.contains id

/-- The text of the formula under an id. -/
def expressionOf? (r : Registry) (id : Text) : Option Text := (r.get? id).map (·.source)

/-- The inputs of the formula under an id, or none. -/
def requiredInputs (r : Registry) (id : Text) : List Text :=
  match r.get? id with
  | some f => f.requiredInputs
  | none => []

/-- The ids in order of arrival. -/
def ids (r : Registry) : List Text := r.formulas.keys

/-- The formulas as definitions. -/
def entries (r : Registry) : List Definition :=
  r.formulas.entries.map (fun entry => ⟨entry.1, entry.2.source⟩)

/-- How many formulas are registered. -/
def count (r : Registry) : Nat := r.formulas.size

/-- The registry without an id. -/
def remove (r : Registry) (id : Text) : Registry := { r with formulas := r.formulas.erase id }

/-- The definitions under some ids, in their order; an unknown id is left out. -/
def select (r : Registry) (ids : List Text) : List Definition :=
  ids.filterMap (fun id => (r.expressionOf? id).map (fun expression => ⟨id, expression⟩))

/-- The document of some ids, or of all. -/
def document (r : Registry) (ids : Option (List Text)) : Document :=
  ⟨r.select (ids.getD r.ids)⟩

end Registry

end Formulary
