import Formulary.Source.Fault
import Formulary.Token.Basic

/-!
# Reading tokens

A cursor stands in front of the tokens that remain, counts those behind it and carries the scope.
A refusal names the fault and the index of the token at which it shows.

While a formula is read, names become local by a declaration or an assignment. A name that is read
before it is local is an input: the caller has to supply it.

- `Scope.bind` makes a name local and `Scope.use` records that it is read.
- `Cursor.token` and `Cursor.following` look at the next two tokens; where none is left the text
  has ended.
- `Cursor.advance` steps over a token, never over the end of the text.
- `Token.joining?` gives the operator by which a token goes on with the line; behind a line break
  there is none.
-/

namespace Formulary

/-! ## Names -/

/-- The names met so far. -/
structure Scope where
  /-- The names that are local. -/
  locals : List Text
  /-- The inputs, in order of their first use. -/
  inputs : List Text
  deriving DecidableEq, Repr

namespace Scope

/-- The scope at the start of a text. -/
def empty : Scope := ⟨[], []⟩

/-- The scope in which a name is local. -/
def bind (s : Scope) (name : Text) : Scope := { s with locals := name :: s.locals }

/-- The scope after a name was read: an input unless it is local. -/
def use (s : Scope) (name : Text) : Scope :=
  if name ∈ s.locals ∨ name ∈ s.inputs then s else { s with inputs := s.inputs ++ [name] }

end Scope

/-! ## Cursors -/

/-- A refusal: the fault and the index of the token at which it shows. -/
structure Failure where
  /-- What is wrong. -/
  fault : Fault
  /-- How many tokens stand before the one at which it shows. -/
  index : Nat
  deriving DecidableEq, Repr

/-- Where a reader of tokens stands. -/
structure Cursor where
  /-- How many tokens have been stepped over. -/
  index : Nat
  /-- The tokens that remain. -/
  rest : List Token
  /-- The names met so far. -/
  scope : Scope
  deriving DecidableEq, Repr

/-- What stands behind the last token. -/
def Token.ending : Token := ⟨.endOfText, false⟩

namespace Cursor

/-- The cursor in front of some tokens. -/
def start (tokens : List Token) : Cursor := ⟨0, tokens, .empty⟩

/-- The next token. -/
def token (c : Cursor) : Token := c.rest.headD .ending

/-- The token behind the next one. -/
def following (c : Cursor) : Token := c.rest.tail.headD .ending

/-- What the next token says. -/
def lexeme (c : Cursor) : Lexeme := c.token.lexeme

/-- The cursor behind the next token; the end of the text is not stepped over. -/
def advance (c : Cursor) : Cursor :=
  match c.rest with
  | [] => c
  | t :: rest => if t.lexeme = .endOfText then c else { c with index := c.index + 1, rest }

/-- The cursor in a scope where a name is local. -/
def bind (c : Cursor) (name : Text) : Cursor := { c with scope := c.scope.bind name }

/-- The cursor after a name was read. -/
def use (c : Cursor) (name : Text) : Cursor := { c with scope := c.scope.use name }

/-- A refusal at the next token. -/
def fail {α : Type} (c : Cursor) (fault : Fault) : Except Failure α := .error ⟨fault, c.index⟩

/-- The cursor behind a mark that has to come next. -/
def expect (c : Cursor) (m : Mark) (fault : Fault) : Except Failure Cursor :=
  if c.lexeme = .mark m then .ok c.advance else c.fail fault

/-- How many semicolons come next. -/
def semicolons (c : Cursor) : Nat :=
  (c.rest.takeWhile (fun t => t.lexeme = .mark .semicolon)).length

/-- The cursor behind all semicolons that come next. -/
def skipSemicolons (c : Cursor) : Cursor :=
  { c with index := c.index + c.semicolons, rest := c.rest.drop c.semicolons }

end Cursor

namespace Token

/-- The operator by which a token goes on with the line. -/
def joining? (t : Token) : Option Operator :=
  if t.lineBreakBefore then none
  else match t.lexeme with
    | .operator op => some op
    | _ => none

/-- Whether a token goes on with the line by a mark. -/
def joinsWith (t : Token) (m : Mark) : Bool := t.lexeme = .mark m && !t.lineBreakBefore

end Token

end Formulary
