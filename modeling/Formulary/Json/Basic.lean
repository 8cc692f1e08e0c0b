import Formulary.Number.Shortest

/-!
# JSON values

The values of the JSON format. Texts are sequences of UTF-16 units, so a surrogate written as an
escape may stand alone; numbers are kept as the decimals that they are written as.

- `Json.field?` reads a member of an object; of several members with one name the last counts.
- `Json.plainText` is a value as plain text: no quotes around texts, no brackets around lists.
-/

namespace Formulary

/-- A JSON value. -/
inductive Json where
  | null
  | bool (value : Bool)
  | number (value : Decimal)
  | string (value : Text)
  | array (items : List Json)
  | object (members : List (Text × Json))

namespace Json

/-- An integer as a value. -/
def ofInt (n : Int) : Json := .number ⟨n < 0, n.natAbs, 0⟩

/-- The member of a name; the last one counts. -/
def lastMember? (members : List (Text × Json)) (name : Text) : Option Json :=
  (members.reverse.find? (fun m => m.1 = name)).map (·.2)

/-- The member of an object. -/
def field? : Json → Text → Option Json
  | .object members, name => lastMember? members name
  | _, _ => none

mutual

/-- A value as plain text. Lists are joined by commas, null within one is empty, and no member of
an object shows. -/
def plainText : Json → Text
  | .null => "null"
  | .bool true => "true"
  | .bool false => "false"
  | .number value => value.toNumber.text
  | .string value => value
  | .array items => Text.join "," (plainTexts items)
  | .object _ => "[object Object]"

/-- The items of a list as plain texts; null is empty. -/
def plainTexts : List Json → List Text
  | [] => []
  | .null :: rest => [] :: plainTexts rest
  | item :: rest => plainText item :: plainTexts rest

end

end Json

end Formulary
