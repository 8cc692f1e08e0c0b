import Formulary.Source.Place
import Formulary.Text.Letter
import Formulary.Token.Basic

/-!
# From text to tokens

Scanning cuts a text into the longest lexemes, from left to right. Blanks separate lexemes and
vanish; a line break among them is remembered for the next token unless parentheses are open.

- `Lexeme.first` reads the lexeme that a text starts with.
- `scanFrom` walks the text unit by unit; the units of a lexeme already read are stepped over.
- `tokenize` scans a whole text; its last token is the end of the text.
-/

namespace Formulary

/-- A unit that a number is written with. -/
def CodeUnit.isNumeral (u : CodeUnit) : Bool := u.isDigit || u == CodeUnit.ofChar '.'

/-- A run of digits and points writes a number if it has a digit and at most one point. -/
def Text.writesNumber (run : Text) : Bool :=
  run.any CodeUnit.isDigit && run.countP (fun u => !u.isDigit) ≤ 1

/-- The longest operator that a text starts with. -/
def Operator.first? (text : Text) : Option Operator :=
  Operator.all.find? (fun op => op.spelling.isPrefixOf text)

/-- The mark that a text starts with. -/
def Mark.first? (text : Text) : Option Mark :=
  Mark.all.find? (fun m => m.spelling.isPrefixOf text)

/-- The lexeme that the text of `unit` and `rest` starts with, where `unit` is no blank. -/
def Lexeme.first (unit : CodeUnit) (rest : Text) : Except Fault Lexeme :=
  let text : Text := unit :: rest
  if unit.isNumeral then
    let run : Text := text.takeWhile CodeUnit.isNumeral
    if run.writesNumber then .ok (.number run) else .error (.invalidNumber run)
  else if unit.startsName then .ok (.name (text.takeWhile CodeUnit.continuesName))
  else match Operator.first? text with
    | some op => .ok (.operator op)
    | none => match Mark.first? text with
      | some m => .ok (.mark m)
      | none => .error (.unexpectedCharacter unit)

/-- Where a scan stands. -/
structure ScanState where
  /-- The position of the next unit. -/
  position : Nat
  /-- How many parentheses are open. -/
  depth : Nat
  /-- Whether a line break has been passed since the last token. -/
  sawLineBreak : Bool
  deriving DecidableEq, Repr

namespace ScanState

/-- The state at the start of a text. -/
def start : ScanState := { position := 0, depth := 0, sawLineBreak := false }

/-- The state behind a blank. -/
def skipBlank (s : ScanState) (unit : CodeUnit) : ScanState :=
  { s with position := s.position + 1, sawLineBreak := s.sawLineBreak || unit.isLineBreak }

/-- The lexeme as a token at this state. -/
def place (s : ScanState) (lexeme : Lexeme) : PlacedToken :=
  { lexeme, lineBreakBefore := s.sawLineBreak && s.depth == 0, position := s.position }

/-- The count of open parentheses behind a lexeme; one that closes nothing is ignored. -/
def depthAfter (depth : Nat) : Lexeme → Nat
  | .mark .openParen => depth + 1
  | .mark .closeParen => depth - 1
  | _ => depth

/-- The state behind a lexeme. -/
def pass (s : ScanState) (lexeme : Lexeme) : ScanState :=
  { position := s.position + lexeme.text.length, depth := depthAfter s.depth lexeme,
    sawLineBreak := false }

end ScanState

/-- A fault and the position that it was found at. -/
structure PlacedFault where
  /-- What is wrong. -/
  fault : Fault
  /-- The position of the unit at which it shows. -/
  position : Nat
  deriving DecidableEq, Repr

/-- The tokens of a text, where the first `skip` units belong to the token before and `s` already
stands behind them. -/
def scanFrom : (skip : Nat) → Text → ScanState → Except PlacedFault (List PlacedToken)
  | _, [], s => .ok [s.place .endOfText]
  | skip + 1, _ :: rest, s => scanFrom skip rest s
  | 0, unit :: rest, s =>
    if unit.isBlank then scanFrom 0 rest (s.skipBlank unit)
    else match Lexeme.first unit rest with
      | .error fault => .error ⟨fault, s.position⟩
      | .ok lexeme => do
        let tokens ← scanFrom (lexeme.text.length - 1) rest (s.pass lexeme)
        return s.place lexeme :: tokens

/-- The tokens of a text, or the first fault in it. -/
def tokenize (text : Text) : Except ParseError (List PlacedToken) :=
  match scanFrom 0 text .start with
  | .ok tokens => .ok tokens
  | .error e => .error { fault := e.fault, source := text, position := e.position }

end Formulary
