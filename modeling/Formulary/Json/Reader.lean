import Formulary.Json.Basic

/-!
# Reading JSON

A strict reader of the JSON grammar over UTF-16 units: no comments, no trailing commas, no control
characters within texts, and only the four blanks of the format.

- `Json.readText` reads what stands between quotes, `Json.readNumber` a number, `Json.readValue` a
  value. Each gives what it read and the units that remain.
- `Json.parse` reads a whole text.
-/

namespace Formulary

/-- Why a text is not JSON. -/
inductive JsonFault where
  /-- The text ends within a value. -/
  | unexpectedEnd
  /-- A unit stands where the grammar has none. -/
  | unexpectedUnit (unit : CodeUnit)
  deriving DecidableEq, Repr

/-- The wording of a refusal. The format prescribes none, so that these words stand for whatever the
reader at hand says. -/
def JsonFault.message : JsonFault → Text
  | .unexpectedEnd => "Unexpected end of JSON input"
  | .unexpectedUnit unit => Text.concat ["Unexpected token '", [unit], "' in JSON"]

namespace Json

/-- A blank of the format. -/
def isBlank (u : CodeUnit) : Bool := u == 0x20 || u == 0x09 || u == 0x0A || u == 0x0D

/-- The units behind all blanks. -/
def skipBlanks (t : Text) : Text := t.dropWhile isBlank

/-- A refusal at the first of some units. -/
def refuse {α : Type} : Text → Except JsonFault α
  | [] => .error .unexpectedEnd
  | u :: _ => .error (.unexpectedUnit u)

/-! ## Texts -/

/-- The value of a hexadecimal digit. -/
def hexValue? (u : CodeUnit) : Option Nat :=
  let n := u.toNat
  if 0x30 ≤ n && n ≤ 0x39 then some (n - 0x30)
  else if 0x41 ≤ n && n ≤ 0x46 then some (n - 0x41 + 10)
  else if 0x61 ≤ n && n ≤ 0x66 then some (n - 0x61 + 10)
  else none

/-- The unit that four hexadecimal digits write. -/
def hexUnit? (a b c d : CodeUnit) : Option CodeUnit := do
  let a ← hexValue? a
  let b ← hexValue? b
  let c ← hexValue? c
  let d ← hexValue? d
  return UInt16.ofNat (((a * 16 + b) * 16 + c) * 16 + d)

/-- The unit that one letter behind a backslash writes. -/
def shortEscape? (u : CodeUnit) : Option CodeUnit :=
  if u = CodeUnit.ofChar '"' then some 0x22
  else if u = CodeUnit.ofChar '\\' then some 0x5C
  else if u = CodeUnit.ofChar '/' then some 0x2F
  else if u = CodeUnit.ofChar 'b' then some 0x08
  else if u = CodeUnit.ofChar 'f' then some 0x0C
  else if u = CodeUnit.ofChar 'n' then some 0x0A
  else if u = CodeUnit.ofChar 'r' then some 0x0D
  else if u = CodeUnit.ofChar 't' then some 0x09
  else none

/-- The units of a text up to its closing quote. -/
def readText : Text → Except JsonFault (Text × Text)
  | [] => .error .unexpectedEnd
  | u :: rest =>
    if u = CodeUnit.ofChar '"' then .ok ([], rest)
    else if u = CodeUnit.ofChar '\\' then
      match rest with
      | [] => .error .unexpectedEnd
      | e :: rest =>
        if e = CodeUnit.ofChar 'u' then
          match rest with
          | a :: b :: c :: d :: rest =>
            match hexUnit? a b c d with
            | none => .error (.unexpectedUnit e)
            | some unit => do
              let (units, rest) ← readText rest
              return (unit :: units, rest)
          | _ => .error .unexpectedEnd
        else match shortEscape? e with
          | none => .error (.unexpectedUnit e)
          | some unit => do
            let (units, rest) ← readText rest
            return (unit :: units, rest)
    else if u.toNat < 0x20 then .error (.unexpectedUnit u)
    else do
      let (units, rest) ← readText rest
      return (u :: units, rest)

/-! ## Numbers -/

/-- One digit or more. -/
def readDigits (t : Text) : Except JsonFault (Text × Text) :=
  let digits := t.takeWhile CodeUnit.isDigit
  let rest := t.dropWhile CodeUnit.isDigit
  if digits.isEmpty then refuse rest else .ok (digits, rest)

/-- The digits before the point: a zero stands alone. -/
def readWhole : Text → Except JsonFault (Text × Text)
  | u :: rest => if u = CodeUnit.ofChar '0' then .ok ([u], rest) else readDigits (u :: rest)
  | [] => .error .unexpectedEnd

/-- The digits behind a point, if there is one. -/
def readFraction : Text → Except JsonFault (Text × Text)
  | u :: rest => if u = CodeUnit.ofChar '.' then readDigits rest else .ok ([], u :: rest)
  | [] => .ok ([], [])

/-- The sign of an exponent, negative or not. -/
def readExponentSign : Text → Bool × Text
  | u :: rest =>
    if u = CodeUnit.ofChar '-' then (true, rest)
    else if u = CodeUnit.ofChar '+' then (false, rest)
    else (false, u :: rest)
  | [] => (false, [])

/-- The exponent, or zero. -/
def readExponent : Text → Except JsonFault (Int × Text)
  | u :: rest =>
    if u = CodeUnit.ofChar 'e' ∨ u = CodeUnit.ofChar 'E' then do
      let (negative, rest) := readExponentSign rest
      let (digits, rest) ← readDigits rest
      let magnitude : Int := Text.decimalValue digits
      return (if negative then -magnitude else magnitude, rest)
    else .ok (0, u :: rest)
  | [] => .ok (0, [])

/-- A number behind its sign. -/
def readMagnitude (negative : Bool) (t : Text) : Except JsonFault (Decimal × Text) := do
  let (whole, t) ← readWhole t
  let (fraction, t) ← readFraction t
  let (exponent, t) ← readExponent t
  let digits := Text.decimalValue (whole ++ fraction)
  return (⟨negative, digits, exponent - fraction.length⟩, t)

/-- A number. -/
def readNumber : Text → Except JsonFault (Decimal × Text)
  | u :: rest =>
    if u = CodeUnit.ofChar '-' then readMagnitude true rest else readMagnitude false (u :: rest)
  | [] => .error .unexpectedEnd

/-! ## Values -/

/-- A word that has to come next. -/
def readWord (word : Text) (value : Json) : Text → Except JsonFault (Json × Text)
  | t => if word.isPrefixOf t then .ok (value, t.drop word.length) else refuse t

/-- The units behind a unit that has to come next. -/
def readUnit (expected : Char) : Text → Except JsonFault Text
  | [] => .error .unexpectedEnd
  | u :: rest => if u = CodeUnit.ofChar expected then .ok rest else .error (.unexpectedUnit u)

mutual

/-- A value, with at most `fuel` steps into and along lists and objects. -/
def readValue : (fuel : Nat) → Text → Except JsonFault (Json × Text)
  | 0, t => refuse t
  | fuel + 1, t =>
    match skipBlanks t with
    | [] => .error .unexpectedEnd
    | u :: rest =>
      if u = CodeUnit.ofChar '\x7b' then readMembers fuel rest
      else if u = CodeUnit.ofChar '[' then readItems fuel rest
      else if u = CodeUnit.ofChar '"' then do
        let (units, rest) ← readText rest
        return (.string units, rest)
      else if u = CodeUnit.ofChar 't' then readWord "true" (.bool true) (u :: rest)
      else if u = CodeUnit.ofChar 'f' then readWord "false" (.bool false) (u :: rest)
      else if u = CodeUnit.ofChar 'n' then readWord "null" .null (u :: rest)
      else if u = CodeUnit.ofChar '-' ∨ u.isDigit then do
        let (value, rest) ← readNumber (u :: rest)
        return (.number value, rest)
      else .error (.unexpectedUnit u)

/-- A list from behind its opening bracket. -/
def readItems : (fuel : Nat) → Text → Except JsonFault (Json × Text)
  | 0, t => refuse t
  | fuel + 1, t =>
    match skipBlanks t with
    | [] => .error .unexpectedEnd
    | u :: rest =>
      if u = CodeUnit.ofChar ']' then .ok (.array [], rest)
      else do
        let (items, rest) ← readItemsFrom fuel (u :: rest)
        return (.array items, rest)

/-- One item or more, up to the closing bracket. -/
def readItemsFrom : (fuel : Nat) → Text → Except JsonFault (List Json × Text)
  | 0, t => refuse t
  | fuel + 1, t => do
    let (item, rest) ← readValue fuel t
    match skipBlanks rest with
    | [] => .error .unexpectedEnd
    | u :: rest =>
      if u = CodeUnit.ofChar ',' then do
        let (items, rest) ← readItemsFrom fuel rest
        return (item :: items, rest)
      else if u = CodeUnit.ofChar ']' then .ok ([item], rest)
      else .error (.unexpectedUnit u)

/-- An object from behind its opening brace. -/
def readMembers : (fuel : Nat) → Text → Except JsonFault (Json × Text)
  | 0, t => refuse t
  | fuel + 1, t =>
    match skipBlanks t with
    | [] => .error .unexpectedEnd
    | u :: rest =>
      if u = CodeUnit.ofChar '\x7d' then .ok (.object [], rest)
      else do
        let (members, rest) ← readMembersFrom fuel (u :: rest)
        return (.object members, rest)

/-- One member or more, up to the closing brace. -/
def readMembersFrom : (fuel : Nat) → Text → Except JsonFault (List (Text × Json) × Text)
  | 0, t => refuse t
  | fuel + 1, t => do
    let t ← readUnit '"' (skipBlanks t)
    let (name, t) ← readText t
    let t ← readUnit ':' (skipBlanks t)
    let (value, t) ← readValue fuel t
    match skipBlanks t with
    | [] => .error .unexpectedEnd
    | u :: rest =>
      if u = CodeUnit.ofChar ',' then do
        let (members, rest) ← readMembersFrom fuel rest
        return ((name, value) :: members, rest)
      else if u = CodeUnit.ofChar '\x7d' then .ok ([(name, value)], rest)
      else .error (.unexpectedUnit u)

end

/-- The value that a text writes, with blanks around it. The reader takes at most three steps for
every unit that it steps over: a list is opened by one unit, and then come its first item and the
value of that. So the bound is never met. -/
def parse (t : Text) : Except JsonFault Json := do
  let (value, rest) ← readValue (3 * t.length + 3) t
  match skipBlanks rest with
  | [] => return value
  | u :: _ => .error (.unexpectedUnit u)

end Json

end Formulary
