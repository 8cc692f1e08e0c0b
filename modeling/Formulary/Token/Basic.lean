import Formulary.Text.Basic

/-!
# Tokens

A lexeme is what a token says; a token adds whether a line break outside parentheses separates it
from the token before; a placed token adds the position of its first unit. The grammar reads
tokens and never their positions.

- `Operator.spelling` and `Mark.spelling` write the fixed lexemes; `Operator.all` and `Mark.all`
  list them, the longer spellings first.
- `Lexeme.text` gives the units that a lexeme takes from the text.
-/

namespace Formulary

/-- The operators of the language. -/
inductive Operator where
  | lessEqual
  | greaterEqual
  | equal
  | notEqual
  | and
  | or
  | addAssign
  | subtractAssign
  | multiplyAssign
  | divideAssign
  | less
  | greater
  | assign
  | not
  | plus
  | minus
  | times
  | divide
  | percent
  | caret
  deriving DecidableEq, Repr

namespace Operator

/-- The units of an operator. -/
def spelling : Operator → Text
  | .lessEqual => Text.ofChars ['<', '=']
  | .greaterEqual => Text.ofChars ['>', '=']
  | .equal => Text.ofChars ['=', '=']
  | .notEqual => Text.ofChars ['!', '=']
  | .and => Text.ofChars ['&', '&']
  | .or => Text.ofChars ['|', '|']
  | .addAssign => Text.ofChars ['+', '=']
  | .subtractAssign => Text.ofChars ['-', '=']
  | .multiplyAssign => Text.ofChars ['*', '=']
  | .divideAssign => Text.ofChars ['/', '=']
  | .less => Text.ofChars ['<']
  | .greater => Text.ofChars ['>']
  | .assign => Text.ofChars ['=']
  | .not => Text.ofChars ['!']
  | .plus => Text.ofChars ['+']
  | .minus => Text.ofChars ['-']
  | .times => Text.ofChars ['*']
  | .divide => Text.ofChars ['/']
  | .percent => Text.ofChars ['%']
  | .caret => Text.ofChars ['^']

/-- Every operator; one of two units stands before the one that it starts with. -/
def all : List Operator :=
  [.lessEqual, .greaterEqual, .equal, .notEqual, .and, .or, .addAssign, .subtractAssign,
    .multiplyAssign, .divideAssign, .less, .greater, .assign, .not, .plus, .minus, .times, .divide,
    .percent, .caret]

end Operator

/-- The punctuation marks of the language. -/
inductive Mark where
  | openParen
  | closeParen
  | openBrace
  | closeBrace
  | comma
  | semicolon
  | question
  | colon
  deriving DecidableEq, Repr

namespace Mark

/-- The unit of a mark. -/
def spelling : Mark → Text
  | .openParen => Text.ofChars ['(']
  | .closeParen => Text.ofChars [')']
  | .openBrace => Text.ofChars ['\x7b']
  | .closeBrace => Text.ofChars ['\x7d']
  | .comma => Text.ofChars [',']
  | .semicolon => Text.ofChars [';']
  | .question => Text.ofChars ['?']
  | .colon => Text.ofChars [':']

/-- Every mark. -/
def all : List Mark :=
  [.openParen, .closeParen, .openBrace, .closeBrace, .comma, .semicolon, .question, .colon]

end Mark

/-- What a token says. -/
inductive Lexeme where
  /-- A number, as it is written. -/
  | number (digits : Text)
  /-- A name or a word of the language. -/
  | name (units : Text)
  /-- An operator. -/
  | operator (op : Operator)
  /-- A punctuation mark. -/
  | mark (m : Mark)
  /-- The end of the text. -/
  | endOfText
  deriving DecidableEq, Repr

/-- The units that a lexeme takes from the text. -/
def Lexeme.text : Lexeme → Text
  | .number digits => digits
  | .name units => units
  | .operator op => op.spelling
  | .mark m => m.spelling
  | .endOfText => []

/-- What the grammar sees of a token. -/
structure Token where
  /-- What the token says. -/
  lexeme : Lexeme
  /-- Whether a line break outside parentheses stands between this token and the one before. -/
  lineBreakBefore : Bool
  deriving DecidableEq, Repr

/-- A token and the position of its first unit. -/
structure PlacedToken extends Token where
  /-- The position of the first unit. -/
  position : Nat
  deriving DecidableEq, Repr

end Formulary
