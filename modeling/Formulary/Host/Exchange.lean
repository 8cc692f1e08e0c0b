import Formulary.Compression.Container
import Formulary.Host.Registering
import Formulary.Json.Reader
import Formulary.Library.Schema

/-!
# Importing and exporting documents

Documents come as JSON text, as compressed bytes or from a file. A text that is no JSON, or no
document, is refused as a whole and logged; of a document every definition is registered in turn.

- `Host.loadText`, `Host.loadCompressed` and `Host.loadFile` import and give the number of formulas
  registered.
- `Host.exportText`, `Host.exportCompressed` and `Host.exportFile` export the formulas under some ids,
  or all.
-/

namespace Formulary

/-- Why a text is no document. -/
inductive DocumentFault where
  /-- The text is no JSON. -/
  | notJson (fault : JsonFault)
  /-- The value is no document. -/
  | notDocument (issues : List Issue)
  deriving DecidableEq, Repr

/-- The wording of a refused text. -/
def DocumentFault.message : DocumentFault → Text
  | .notJson fault => fault.message
  | .notDocument issues => Issue.report issues

/-- The document that a text writes. -/
def Document.parse (text : Text) : Except DocumentFault Document :=
  match Json.parse text with
  | .error fault => .error (.notJson fault)
  | .ok value =>
    match Schema.document (some value) with
    | .error issues => .error (.notDocument issues)
    | .ok document => .ok document

namespace Host

variable {σ : Type}

/-- A message of the library. -/
def refuse (message : Text) : Action σ Unit := Action.report .library .error message

/-- How many formulas of a document could be registered. -/
def loadText (text : Text) : Action σ Nat :=
  match Document.parse text with
  | .error fault => do
    refuse (Text.concat ["Failed to load formulas from JSON: ", fault.message])
    return 0
  | .ok document => registerMany document.formulas

/-- How many formulas of a compressed document could be registered. -/
def loadCompressed (bytes : List UInt8) : Action σ Nat :=
  match unpackText bytes with
  | .error fault => do
    refuse (Text.concat ["Failed to load formulas from compressed data: ", fault.message])
    return 0
  | .ok text => loadText text

/-- The report on a file that cannot be read. -/
def unreadableMessage (path : Text) : FileFault → Text
  | .notFound => Text.concat ["Formula file not found: ", path]
  | fault =>
    Text.concat ["Failed to load formulas from file '", path, "': ", fault.message .read path]

/-- How many formulas of a file could be registered. -/
def loadFile (path : Text) : Action σ Nat := do
  match ← Action.inspect (fun host => host.files.read path) with
  | .error fault =>
    refuse (unreadableMessage path fault)
    return 0
  | .ok content => loadText (Text.ofUtf8 content)

/-- The document of some ids, or of all. -/
def document (ids : Option (List Text)) : Action σ Document :=
  Action.inspect (fun host => host.registry.document ids)

/-- The document of some ids, or of all, as text. -/
def exportText (ids : Option (List Text)) : Action σ Text := do
  let document ← document ids
  return document.text

/-- The document of some ids, or of all, as compressed bytes. -/
def exportCompressed (ids : Option (List Text)) : Action σ (List UInt8) := do
  let text ← exportText ids
  return packText text

/-- Whether the document of some ids, or of all, could be written to a file. -/
def exportFile (path : Text) (ids : Option (List Text)) : Action σ Bool := do
  let text ← exportText ids
  let line := text ++ [CodeUnit.ofChar '\n']
  match ← Action.inspect (fun host => host.files.write path line.toUtf8) with
  | .ok files =>
    Action.change (fun host => { host with files })
    return true
  | .error fault =>
    refuse (Text.concat ["Failed to export formulas to file '", path, "': ",
      fault.message .write path])
    return false

end Host

end Formulary
