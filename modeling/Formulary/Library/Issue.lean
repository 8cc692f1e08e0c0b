import Formulary.Json.Basic

/-!
# Issues of a document

An issue says what is wrong at one place of a JSON value. A report lists the first few issues in one
line and counts the others.

- `Issue.message` words an issue; `Remark` is an issue as a report needs it.
- `Remark.report` is the line.
-/

namespace Formulary

/-- The types of JSON values. -/
inductive JsonType where
  | null
  | boolean
  | number
  | string
  | array
  | object
  deriving DecidableEq, Repr

/-- The type of a value. -/
def Json.type : Json → JsonType
  | .null => .null
  | .bool _ => .boolean
  | .number _ => .number
  | .string _ => .string
  | .array _ => .array
  | .object _ => .object

/-- The name of a type. -/
def JsonType.name : JsonType → Text
  | .null => "null"
  | .boolean => "boolean"
  | .number => "number"
  | .string => "string"
  | .array => "array"
  | .object => "object"

/-- A step into a JSON value. -/
inductive PathStep where
  /-- Into the member of an object. -/
  | member (name : Text)
  /-- Into the item of a list. -/
  | item (index : Int)
  deriving DecidableEq, Repr

/-- A step as text. -/
def PathStep.text : PathStep → Text
  | .member name => name
  | .item index => Text.ofInt index

/-- The place in a document: its steps with points between them, or a word for the document
itself. -/
def pathText (path : List PathStep) : Text :=
  if path.isEmpty then "(root)" else Text.join "." (path.map PathStep.text)

/-- What is wrong with a value. -/
inductive IssueCause where
  /-- There is no value. -/
  | missing
  /-- The value has another type. -/
  | wrongType (expected received : JsonType)
  /-- A text consists of blanks only. -/
  | blank (field : Text)
  deriving DecidableEq, Repr

/-- The wording of a cause. -/
def IssueCause.message : IssueCause → Text
  | .missing => "Required"
  | .wrongType expected received =>
    Text.concat ["Expected ", expected.name, ", received ", received.name]
  | .blank field => Text.concat [field, " must not be blank"]

/-- Something wrong at a place of a document. -/
structure Issue where
  /-- The place. -/
  path : List PathStep
  /-- What is wrong there. -/
  cause : IssueCause
  deriving DecidableEq, Repr

/-- A place of a document and a text about it. -/
structure Remark where
  /-- The place. -/
  path : List PathStep
  /-- The text. -/
  message : Text
  deriving DecidableEq, Repr

/-- An issue as a remark. -/
def Issue.remark (issue : Issue) : Remark := ⟨issue.path, issue.cause.message⟩

namespace Remark

/-- How many remarks a report lists unless it is told otherwise. -/
def defaultLimit : Int := 5

/-- A remark as a part of a report. -/
def text (r : Remark) : Text := Text.concat [pathText r.path, ": ", r.message]

/-- The first remarks up to a limit in one line, and the number of the others. -/
def report (remarks : List Remark) (limit : Int) : Text :=
  let shown := remarks.take limit.toNat
  let hidden := remarks.length - shown.length
  let tail : List Text := if hidden = 0 then [] else [Text.concat ["and ", Text.ofNat hidden, " more"]]
  Text.concat ["Validation failed: ", Text.join "; " (shown.map text ++ tail)]

end Remark

/-- The report on some issues. -/
def Issue.report (issues : List Issue) : Text :=
  Remark.report (issues.map Issue.remark) Remark.defaultLimit

end Formulary
