import Formulary.Json.Writer
import Formulary.Library.Issue

/-!
# Documents and their schema

A definition is a formula as it is stored: an id and the text of an expression. A document is a list
of definitions, written as indented JSON.

As JSON, a document is an object whose member `formulas` lists objects with an `id` and an `expression`, both
texts that are not blank. Other members are ignored. Every part is looked at, so that all issues are
found, in the order of the document.

- `Document.toJson` and `Document.text` write a document.
- `Schema.definition` checks one definition and `Schema.document` a whole document; a value that is
  absent is given as `none`.
- `Schema.judge` is the check of a document that never fails itself.
-/

namespace Formulary

/-! ## Documents -/

/-- A formula as it is stored. -/
structure Definition where
  /-- The id that the formula is known by. -/
  id : Text
  /-- Its text. -/
  expression : Text
  deriving DecidableEq, Repr

/-- A list of definitions. -/
structure Document where
  /-- The definitions in order. -/
  formulas : List Definition
  deriving DecidableEq, Repr

/-- A definition as JSON. -/
def Definition.toJson (d : Definition) : Json :=
  .object [(Text.ofString "id", .string d.id), (Text.ofString "expression", .string d.expression)]

namespace Document

/-- A document as JSON. -/
def toJson (d : Document) : Json :=
  .object [(Text.ofString "formulas", .array (d.formulas.map Definition.toJson))]

/-- A document as indented text. -/
def text (d : Document) : Text := Json.write (.indented 2) d.toJson

end Document

/-! ## The schema -/

namespace Schema

/-- The check of a text that may not be blank. -/
def text (field : Text) (path : List PathStep) : Option Json → Except Issue Text
  | none => .error ⟨path, .missing⟩
  | some (.string value) => if value.isBlank then .error ⟨path, .blank field⟩ else .ok value
  | some other => .error ⟨path, .wrongType .string other.type⟩

/-- The issue of a check, if it found one. -/
def issueOf {α : Type} : Except Issue α → List Issue
  | .ok _ => []
  | .error issue => [issue]

/-- The name of the member that holds the id. -/
def idField : Text := Text.ofString "id"

/-- The name of the member that holds the expression. -/
def expressionField : Text := Text.ofString "expression"

/-- The name of the member that holds the definitions. -/
def formulasField : Text := Text.ofString "formulas"

/-- The check of a definition. -/
def definition (path : List PathStep) : Option Json → Except (List Issue) Definition
  | none => .error [⟨path, .missing⟩]
  | some (.object members) =>
    let id := text idField (path ++ [.member idField]) (Json.lastMember? members idField)
    let expression := text expressionField (path ++ [.member expressionField])
      (Json.lastMember? members expressionField)
    match id, expression with
    | .ok id, .ok expression => .ok { id, expression }
    | id, expression => .error (issueOf id ++ issueOf expression)
  | some other => .error [⟨path, .wrongType .object other.type⟩]

/-- The check of definitions, the first of which has the number `index`. -/
def definitions (path : List PathStep) :
    (index : Nat) → List Json → Except (List Issue) (List Definition)
  | _, [] => .ok []
  | index, value :: rest =>
    match definition (path ++ [.item index]) (some value), definitions path (index + 1) rest with
    | .ok d, .ok ds => .ok (d :: ds)
    | .ok _, .error issues => .error issues
    | .error issues, .ok _ => .error issues
    | .error issues, .error more => .error (issues ++ more)

/-- The check of the list of definitions. -/
def formulas (path : List PathStep) : Option Json → Except (List Issue) (List Definition)
  | none => .error [⟨path, .missing⟩]
  | some (.array items) => definitions path 0 items
  | some other => .error [⟨path, .wrongType .array other.type⟩]

/-- The check of a document. -/
def document : Option Json → Except (List Issue) Document
  | none => .error [⟨[], .missing⟩]
  | some (.object members) => do
    let list ← formulas [.member formulasField] (Json.lastMember? members formulasField)
    return ⟨list⟩
  | some other => .error [⟨[], .wrongType .object other.type⟩]

/-- What the check of a document found. -/
inductive Verdict where
  /-- The value is this document. -/
  | accepted (document : Document)
  /-- The value is no document. -/
  | refused (issues : List Issue)
  deriving DecidableEq, Repr

/-- The verdict on a value. -/
def judge (value : Option Json) : Verdict :=
  match document value with
  | .ok document => .accepted document
  | .error issues => .refused issues

end Schema

end Formulary
