import Formulary.Proofs.Library.Documents
import Mathlib.Data.List.Forall2

/-!
# What the schema accepts

A value is a document if its member `formulas` is a list and every item of the list has an `id` and
an `expression` that are texts and not blank; of several members with one name the last counts. In
such a value the schema finds nothing, and it gives the definitions in the order of the list. In any
other value it finds an issue.

- `Json.IsDefinition` and `Json.IsDocument` say what values are definitions and documents.
- `Schema.document_eq_ok_iff` and `Schema.ne_nil_of_document` are about the check.
- `Document.isDocument_of_parse` and `Document.refused_of_parse` are about texts.
-/

namespace Formulary

namespace Json

/-- A value is a definition: its id and its expression are texts that are not blank. -/
structure IsDefinition (value : Json) (d : Definition) : Prop where
  id : value.field? Schema.idField = some (.string d.id)
  expression : value.field? Schema.expressionField = some (.string d.expression)
  solid : d.Solid

/-- A value is a document: it lists the definitions. -/
def IsDocument (value : Json) (document : Document) : Prop :=
  ∃ items, value.field? Schema.formulasField = some (.array items)
    ∧ List.Forall₂ IsDefinition items document.formulas

end Json

namespace Schema

/-! ## What passes -/

/-- A field passes as a text exactly if it is one that is not blank. -/
theorem text_eq_ok_iff {field : Text} {path : List PathStep} {value : Option Json} {t : Text} :
    text field path value = .ok t ↔ value = some (.string t) ∧ t.isBlank = false := by
  constructor
  · intro h
    match value with
    | none => cases h
    | some (.string t') =>
        rw [text] at h
        cases hblank : t'.isBlank with
        | true =>
            rw [hblank, if_pos rfl] at h
            cases h
        | false =>
            rw [hblank, if_neg Bool.false_ne_true] at h
            cases h
            exact ⟨rfl, hblank⟩
    | some .null | some (.bool _) | some (.number _) | some (.array _) | some (.object _) => cases h
  · rintro ⟨rfl, hblank⟩
    rw [text, hblank, if_neg Bool.false_ne_true]

/-- A value passes as a definition exactly if it is one, whatever else it holds. -/
theorem definition_eq_ok_iff {path : List PathStep} {value : Json} {d : Definition} :
    definition path (some value) = .ok d ↔ value.IsDefinition d := by
  constructor
  · intro h
    cases value with
    | object members =>
        rw [definition] at h
        split at h
        · rename_i id expression hid hexpression
          cases h
          obtain ⟨hid, hid'⟩ := text_eq_ok_iff.mp hid
          obtain ⟨hexpression, hexpression'⟩ := text_eq_ok_iff.mp hexpression
          exact ⟨hid, hexpression, hid', hexpression'⟩
        · cases h
    | _ => cases h
  · rintro ⟨hid, hexpression, hid', hexpression'⟩
    cases value with
    | object members =>
        have hid : text idField (path ++ [.member idField]) (Json.lastMember? members idField)
            = .ok d.id := text_eq_ok_iff.mpr ⟨hid, hid'⟩
        have hexpression : text expressionField (path ++ [.member expressionField])
            (Json.lastMember? members expressionField) = .ok d.expression :=
          text_eq_ok_iff.mpr ⟨hexpression, hexpression'⟩
        rw [definition, hid, hexpression]
    | _ => cases hid

/-- Items pass exactly if each of them is a definition. -/
theorem definitions_eq_ok_iff {path : List PathStep} {index : Nat} {items : List Json}
    {ds : List Definition} :
    definitions path index items = .ok ds ↔ List.Forall₂ Json.IsDefinition items ds := by
  induction items generalizing index ds with
  | nil =>
      rw [definitions, List.forall₂_nil_left_iff]
      exact ⟨fun h => (Except.ok.inj h).symm, fun h => by rw [h]⟩
  | cons item rest ih =>
      rw [definitions, List.forall₂_cons_left_iff]
      constructor
      · intro h
        split at h
        · rename_i d ds' hd hds
          cases h
          exact ⟨d, ds', definition_eq_ok_iff.mp hd, ih.mp hds, rfl⟩
        · cases h
        · cases h
        · cases h
      · rintro ⟨d, ds', hd, hds, rfl⟩
        rw [definition_eq_ok_iff.mpr hd, ih.mpr hds]

/-- A value passes as a document exactly if it is one. -/
theorem document_eq_ok_iff {value : Json} {d : Document} :
    document (some value) = .ok d ↔ value.IsDocument d := by
  constructor
  · intro h
    cases value with
    | object members =>
        rw [document] at h
        cases hfield : Json.lastMember? members formulasField with
        | none =>
            rw [hfield] at h
            cases h
        | some list =>
            rw [hfield] at h
            cases list with
            | array items =>
                rw [formulas] at h
                cases hitems : definitions [.member formulasField] 0 items with
                | error issues =>
                    rw [hitems] at h
                    cases h
                | ok ds =>
                    rw [hitems] at h
                    cases h
                    exact ⟨items, hfield, definitions_eq_ok_iff.mp hitems⟩
            | _ => cases h
    | _ => cases h
  · rintro ⟨items, hfield, hitems⟩
    cases value with
    | object members =>
        have hfield' : Json.lastMember? members formulasField = some (.array items) := hfield
        rw [document, hfield', formulas, definitions_eq_ok_iff.mpr hitems]
        rfl
    | _ => cases hfield

/-! ## What does not -/

/-- A definition that does not pass has an issue. -/
theorem ne_nil_of_definition {path : List PathStep} {value : Option Json} {issues : List Issue}
    (h : definition path value = .error issues) : issues ≠ [] := by
  match value with
  | none =>
      cases h
      exact List.cons_ne_nil _ _
  | some (.object members) =>
      rw [definition] at h
      cases hid : text idField (path ++ [.member idField]) (Json.lastMember? members idField) with
      | error issue =>
          rw [hid] at h
          cases h
          exact List.cons_ne_nil _ _
      | ok id =>
          cases hexpression : text expressionField (path ++ [.member expressionField])
              (Json.lastMember? members expressionField) with
          | error issue =>
              rw [hid, hexpression] at h
              cases h
              exact List.cons_ne_nil _ _
          | ok expression =>
              rw [hid, hexpression] at h
              cases h
  | some .null | some (.bool _) | some (.number _) | some (.string _) | some (.array _) =>
      cases h
      exact List.cons_ne_nil _ _

/-- So have items of which one does not pass. -/
theorem ne_nil_of_definitions {path : List PathStep} {index : Nat} {items : List Json}
    {issues : List Issue} (h : definitions path index items = .error issues) : issues ≠ [] := by
  induction items generalizing index issues with
  | nil => cases h
  | cons item rest ih =>
      rw [definitions] at h
      split at h
      · cases h
      · rename_i hrest
        cases h
        exact ih hrest
      · rename_i hitem _
        cases h
        exact ne_nil_of_definition hitem
      · rename_i hitem _
        cases h
        exact List.append_ne_nil_of_left_ne_nil (ne_nil_of_definition hitem) _

theorem ne_nil_of_formulas {path : List PathStep} {value : Option Json} {issues : List Issue}
    (h : formulas path value = .error issues) : issues ≠ [] := by
  cases value with
  | none =>
      cases h
      exact List.cons_ne_nil _ _
  | some list =>
      cases list with
      | array items => exact ne_nil_of_definitions h
      | _ =>
          cases h
          exact List.cons_ne_nil _ _

/-- A value that does not pass has an issue. -/
theorem ne_nil_of_document {value : Json} {issues : List Issue}
    (h : document (some value) = .error issues) : issues ≠ [] := by
  cases value with
  | object members =>
      rw [document] at h
      cases hlist : formulas [.member formulasField] (Json.lastMember? members formulasField) with
      | ok ds =>
          rw [hlist] at h
          cases h
      | error issues' =>
          rw [hlist] at h
          cases h
          exact ne_nil_of_formulas hlist
  | _ =>
      cases h
      exact List.cons_ne_nil _ _

end Schema

/-! ## Texts -/

namespace Document

/-- What is wrong with a text that is no document: it is no JSON, or the value that it writes is no
document and has issues. -/
inductive Refused (text : Text) : DocumentFault → Prop where
  | notJson {fault : JsonFault} (unread : Json.parse text = .error fault) :
    Refused text (.notJson fault)
  | notDocument {value : Json} {issues : List Issue} (read : Json.parse text = .ok value)
    (found : Schema.document (some value) = .error issues) (nonempty : issues ≠ [])
    (unfit : ∀ document, ¬ value.IsDocument document) : Refused text (.notDocument issues)

/-- A text that is accepted writes the document that is made of it. -/
theorem isDocument_of_parse {text : Text} {document : Document} (h : parse text = .ok document) :
    ∃ value, Json.parse text = .ok value ∧ value.IsDocument document := by
  rw [parse] at h
  split at h
  · cases h
  · rename_i value hread
    split at h
    · cases h
    · rename_i found hcheck
      cases h
      exact ⟨value, hread, Schema.document_eq_ok_iff.mp hcheck⟩

/-- A text that is refused writes no document, for the cause that is given. -/
theorem refused_of_parse {text : Text} {fault : DocumentFault} (h : parse text = .error fault) :
    Refused text fault := by
  rw [parse] at h
  split at h
  · rename_i fault hread
    cases h
    exact .notJson hread
  · rename_i value hread
    split at h
    · rename_i issues hcheck
      cases h
      refine .notDocument hread hcheck (Schema.ne_nil_of_document hcheck) fun document hdocument => ?_
      cases hcheck.symm.trans (Schema.document_eq_ok_iff.mpr hdocument)
    · cases h

end Document

end Formulary
