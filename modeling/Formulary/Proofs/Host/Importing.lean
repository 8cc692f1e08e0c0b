import Formulary.Proofs.Host.Editing
import Formulary.Proofs.Library.Schema

/-!
# Importing a text

A text that is no document changes nothing and leaves one line in the log. Of a document every
definition is registered in turn; one whose text is no formula counts for nothing, so under each id
stands the formula of its last definition that has one, or what stood there before. To import a text
again therefore changes nothing, although the definitions under one id replace each other each time.

- `Definition.entry?` is what a definition adds to a registry, and `Registry.applyAll_definitions`
  says that registering definitions writes their entries.
- `Host.Registers` is all that comes of registering definitions.
- `Host.loadText_imports` is the statement about texts.
-/

namespace Formulary

/-- The formula of a definition under its id, if its text is one. -/
def Definition.entry? (provider : ProviderId) (d : Definition) : Option (Text × Formula) :=
  (Formula.parse provider d.expression).toOption.map (fun f => (d.id, f))

/-- Registering definitions writes those of their formulas that there are. -/
theorem Registry.applyAll_definitions (r : Registry) (definitions : List Definition) :
    r.applyAll (definitions.map Definition.change)
      = { r with
        formulas := r.formulas.insertAll (definitions.filterMap (Definition.entry? r.provider)) } := by
  induction definitions generalizing r with
  | nil => rfl
  | cons d rest ih =>
      show (r.apply (.register d.id d.expression)).applyAll _ = _
      cases hparse : Formula.parse r.provider d.expression with
      | error e =>
          have hentry : d.entry? r.provider = none := by rw [Definition.entry?, hparse]; rfl
          rw [apply_of_error hparse, ih, List.filterMap_cons_none hentry]
      | ok f =>
          have hentry : d.entry? r.provider = some (d.id, f) := by rw [Definition.entry?, hparse]; rfl
          rw [apply_of_parse hparse, ih, List.filterMap_cons_some hentry, OrderedMap.insertAll_cons]
          rfl

namespace Host

variable {σ : Type}

/-- All that comes of registering some definitions. The host is what single registrations in turn
leave. The definitions that are formulas are counted, and each of the others leaves its line. Under an
id stands the formula of the last definition that has one, or what stood there before, and new ids
stand behind the old ones in the order in which they came. -/
structure Registers (o : Outcome σ Nat) (host : Host σ) (definitions : List Definition) : Prop where
  behind : o.host = definitions.foldl (fun host d => (register d.id d.expression host).host) host
  value : o.value = definitions.countP (Definition.parses host.registry.provider)
  log : o.log = definitions.flatMap (Definition.lines host.registry.provider host.logger)
  calls : o.calls = []
  formulas : ∀ id, o.host.registry.get? id
    = (((definitions.filterMap (Definition.entry? host.registry.provider)).reverse.find?
      (fun entry => entry.1 = id)).map (·.2)).or (host.registry.get? id)
  ids : o.host.registry.ids = host.registry.ids
    ++ (((definitions.filterMap (Definition.entry? host.registry.provider)).map (·.1)).filter
      (fun id => !host.registry.ids.contains id)).eraseDups

/-- Single registrations in turn make the changes that the definitions ask for. -/
theorem foldl_register (definitions : List Definition) (host : Host σ) :
    definitions.foldl (fun host d => (register d.id d.expression host).host) host
      = { host with registry := host.registry.applyAll (definitions.map Definition.change) } := by
  induction definitions generalizing host with
  | nil => rfl
  | cons d rest ih =>
      rw [List.foldl_cons, ih, register_apply]
      rfl

theorem registerMany_registers (definitions : List Definition) (host : Host σ) :
    Registers (registerMany definitions host) host definitions := by
  rw [registerMany_apply]
  refine ⟨(foldl_register definitions host).symm, rfl, rfl, rfl, fun id => ?_, ?_⟩
  · rw [Registry.applyAll_definitions]
    exact OrderedMap.get?_insertAll _ _ _
  · rw [Registry.applyAll_definitions]
    exact OrderedMap.keys_insertAll _ _

/-- Registering the same definitions again changes nothing and gives the same. -/
theorem registerMany_again (definitions : List Definition) (host : Host σ) :
    registerMany definitions (registerMany definitions host).host
      = registerMany definitions host := by
  rw [registerMany_apply, registerMany_apply, Registry.applyAll_definitions,
    Registry.applyAll_definitions, OrderedMap.insertAll_insertAll]

theorem loadText_of_parse {text : Text} {document : Document} (h : Document.parse text = .ok document)
    (host : Host σ) : loadText text host = registerMany document.formulas host := by
  rw [loadText, h]

theorem loadText_of_error {text : Text} {fault : DocumentFault}
    (h : Document.parse text = .error fault) (host : Host σ) :
    loadText text host
      = ⟨0, host, (Component.library.logger host.logger).write .error
        (Text.concat ["Failed to load formulas from JSON: ", fault.message]), []⟩ := by
  rw [loadText, h]
  exact congrArg (Outcome.mk _ _ · _) (List.append_nil _)

/-- Whatever the text and the host, the text is refused as a whole, for what is wrong with it, and one
error is logged; or it writes a document, and its definitions are registered one by one. To import it
again gives the same and leaves the host as the first time did. -/
theorem loadText_imports (text : Text) (host : Host σ) :
    ((∃ fault, Document.Refused text fault
        ∧ loadText text host
          = ⟨0, host, (Component.library.logger host.logger).write .error
            (Text.concat ["Failed to load formulas from JSON: ", fault.message]), []⟩)
      ∨ ∃ value document, Json.parse text = .ok value ∧ value.IsDocument document
        ∧ Registers (loadText text host) host document.formulas)
    ∧ loadText text (loadText text host).host = loadText text host := by
  cases hparse : Document.parse text with
  | error fault =>
      have hload := loadText_of_error hparse host
      refine ⟨.inl ⟨fault, Document.refused_of_parse hparse, hload⟩, ?_⟩
      rw [hload, hload]
  | ok document =>
      obtain ⟨value, hvalue, hdocument⟩ := Document.isDocument_of_parse hparse
      have hload : ∀ host : Host σ, loadText text host = registerMany document.formulas host :=
        loadText_of_parse hparse
      rw [hload, hload]
      exact ⟨.inr ⟨value, document, hvalue, hdocument, registerMany_registers _ host⟩,
        registerMany_again _ host⟩

end Host

end Formulary
