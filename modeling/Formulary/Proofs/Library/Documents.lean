import Formulary.Host.Exchange
import Formulary.Proofs.Json.RoundTrip

/-!
# Reading written documents back

A written document is JSON of the right shape, so all that the schema can hold against it is a blank
id or a blank expression. Without one the document is read back as it was; with one it is refused as a
whole, and the issues are the blank fields in the order of the document.

- `Document.issues` are the blank fields of a document.
- `Document.parse_text` is the document that a written text gives, or its issues.
-/

namespace Formulary

namespace Definition

/-- The blank fields of a definition at a place. -/
def issues (d : Definition) (path : List PathStep) : List Issue :=
  (if d.id.isBlank then [⟨path ++ [.member Schema.idField], .blank Schema.idField⟩] else [])
    ++ if d.expression.isBlank then
      [⟨path ++ [.member Schema.expressionField], .blank Schema.expressionField⟩] else []

/-- Neither the id nor the expression is blank. -/
def Solid (d : Definition) : Prop := d.id.isBlank = false ∧ d.expression.isBlank = false

theorem issues_eq_nil_iff {d : Definition} {path : List PathStep} :
    d.issues path = [] ↔ d.Solid := by
  rw [issues, Solid]
  cases d.id.isBlank <;> cases d.expression.isBlank <;> simp

end Definition

namespace Document

/-- The blank fields of some definitions, the first of which has the number `index`. -/
def issuesFrom (path : List PathStep) (index : Nat) (definitions : List Definition) : List Issue :=
  (definitions.zipIdx index).flatMap (fun entry => entry.1.issues (path ++ [.item entry.2]))

/-- The blank fields of a document. -/
def issues (d : Document) : List Issue := issuesFrom [.member Schema.formulasField] 0 d.formulas

theorem issuesFrom_cons (path : List PathStep) (index : Nat) (d : Definition)
    (ds : List Definition) :
    issuesFrom path index (d :: ds)
      = d.issues (path ++ [.item index]) ++ issuesFrom path (index + 1) ds := rfl

theorem issues_eq_nil_iff {d : Document} : d.issues = [] ↔ ∀ f ∈ d.formulas, f.Solid := by
  have hfrom : ∀ (definitions : List Definition) (index : Nat),
      issuesFrom [.member Schema.formulasField] index definitions = []
        ↔ ∀ f ∈ definitions, f.Solid := by
    intro definitions
    induction definitions with
    | nil => exact fun _ => iff_of_true rfl fun _ h => nomatch h
    | cons f rest ih =>
        intro index
        rw [issuesFrom_cons, List.append_eq_nil_iff, Definition.issues_eq_nil_iff, ih,
          List.forall_mem_cons]
  exact hfrom d.formulas 0

end Document

namespace Schema

/-- What a check comes to that found some issues in a value. -/
def verdict {α : Type} (issues : List Issue) (value : α) : Except (List Issue) α :=
  if issues = [] then .ok value else .error issues

/-! ## The check of what was written -/

theorem definition_toJson (path : List PathStep) (d : Definition) :
    definition path (some d.toJson) = verdict (d.issues path) d := by
  have hid : Json.lastMember? [(Text.ofString "id", .string d.id),
      (Text.ofString "expression", .string d.expression)] idField = some (.string d.id) := rfl
  have hexpression : Json.lastMember? [(Text.ofString "id", .string d.id),
      (Text.ofString "expression", .string d.expression)] expressionField
        = some (.string d.expression) := rfl
  rw [Definition.toJson, definition, hid, hexpression, text, text, verdict, Definition.issues]
  cases d.id.isBlank <;> cases d.expression.isBlank <;> rfl

theorem definitions_toJson (path : List PathStep) (index : Nat) (ds : List Definition) :
    definitions path index (ds.map Definition.toJson)
      = verdict (Document.issuesFrom path index ds) ds := by
  induction ds generalizing index with
  | nil => rfl
  | cons d ds ih =>
      rw [List.map_cons, definitions, definition_toJson, ih, Document.issuesFrom_cons, verdict,
        verdict, verdict]
      by_cases hd : d.issues (path ++ [.item index]) = [] <;>
        by_cases hds : Document.issuesFrom path (index + 1) ds = [] <;> simp [hd, hds]

theorem document_toJson (d : Document) : document (some d.toJson) = verdict d.issues d := by
  have hformulas : Json.lastMember? [(Text.ofString "formulas",
      .array (d.formulas.map Definition.toJson))] formulasField
        = some (.array (d.formulas.map Definition.toJson)) := rfl
  rw [Document.toJson, document, hformulas, formulas, definitions_toJson, ← Document.issues,
    verdict, verdict]
  split <;> rfl

end Schema

namespace Document

theorem numberFree_toJson (d : Document) : d.toJson.NumberFree := by
  refine .object fun m hm => ?_
  rw [List.mem_singleton.mp hm]
  refine .array (List.forall_mem_map.mpr fun f _ => .object fun m hm => ?_)
  rcases List.mem_cons.mp hm with rfl | hm
  · exact .string f.id
  · rw [List.mem_singleton.mp hm]
    exact .string f.expression

/-- A written document is read back, unless it has blank fields. -/
theorem parse_text (d : Document) :
    parse d.text = if d.issues = [] then .ok d else .error (.notDocument d.issues) := by
  rw [parse, text, Json.parse_write d.numberFree_toJson]
  dsimp only
  rw [Schema.document_toJson, Schema.verdict]
  by_cases h : d.issues = []
  · rw [if_pos h, if_pos h]
  · rw [if_neg h, if_neg h]

/-! ## Packed documents -/

theorem wellFormed_text (d : Document) : d.text.WellFormed :=
  Json.wellFormed_writeAt d.numberFree_toJson (.indented 2) 0

/-- A written document starts with a brace, not with a byte order mark. -/
theorem withoutMark_text (d : Document) : d.text.withoutMark = d.text := by
  obtain ⟨rest, hrest⟩ : ∃ rest, d.text = CodeUnit.ofChar '\x7b' :: rest := ⟨_, rfl⟩
  rw [hrest]
  rfl

end Document

end Formulary
