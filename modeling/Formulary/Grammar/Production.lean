import Formulary.Grammar.Cursor
import Formulary.Node
import Formulary.Number.Literal

/-!
# The grammar

A production reads a tree from a cursor. From loose to tight: statements, a choice between values,
disjunction, conjunction, one comparison, sums, products, powers (to the right), signs, operands.

Productions may nest only to a limit. Four of them open a level of nesting: a statement, an
expression, the right side of a power and the operand of a sign. A `Level` holds these four as they
are one level further in, and each production is defined from the level that it may nest into. So
`Level.deepen` makes a level from the one below it, and `Level.ofBudget` starts from the level at
which nothing may nest.

The provider of randomness is given to the productions that reach a call, and every random node that
they read is bound to it.

- `Level.readProgram` reads all statements of a text.
- `collapse` makes one tree of several statements.
-/

namespace Formulary

/-- A reader of one tree. -/
abbrev Production := Cursor → Except Failure (Node × Cursor)

/-- The productions that open a level of nesting, as they are one level further in. -/
structure Level where
  /-- A statement. -/
  statement : Production
  /-- An expression. -/
  expression : Production
  /-- The right side of a power. -/
  exponent : Production
  /-- The operand of a sign. -/
  unary : Production

/-! ## The words of the language -/

/-- The word that declares a name. -/
def Lexeme.isLet (l : Lexeme) : Bool := l = .name (Text.ofString "let")

/-- The word that opens a conditional statement. -/
def Lexeme.isIf (l : Lexeme) : Bool := l = .name (Text.ofString "if")

/-- The word before the other statement of a conditional. -/
def Lexeme.isElse (l : Lexeme) : Bool := l = .name (Text.ofString "else")

/-! ## What operators build -/

/-- The tree that a disjunction builds. -/
def Operator.disjunction? : Operator → Option (Node → Node → Node)
  | .or => some (.logical .or)
  | _ => none

/-- The tree that a conjunction builds. -/
def Operator.conjunction? : Operator → Option (Node → Node → Node)
  | .and => some (.logical .and)
  | _ => none

/-- The tree that a comparison builds. -/
def Operator.comparison? : Operator → Option (Node → Node → Node)
  | .less => some (.comparison .less)
  | .lessEqual => some (.comparison .lessEqual)
  | .greater => some (.comparison .greater)
  | .greaterEqual => some (.comparison .greaterEqual)
  | .equal => some (.comparison .equal)
  | .notEqual => some (.comparison .notEqual)
  | _ => none

/-- The tree that an operator of sums builds. -/
def Operator.additive? : Operator → Option (Node → Node → Node)
  | .plus => some (.arithmetic .add)
  | .minus => some (.arithmetic .subtract)
  | _ => none

/-- The tree that an operator of products builds. -/
def Operator.multiplicative? : Operator → Option (Node → Node → Node)
  | .times => some (.arithmetic .multiply)
  | .divide => some (.arithmetic .divide)
  | .percent => some (.arithmetic .remainder)
  | _ => none

/-- The assignment that an operator writes. -/
def Operator.assignment? : Operator → Option AssignmentOp
  | .assign => some .set
  | .addAssign => some .add
  | .subtractAssign => some .subtract
  | .multiplyAssign => some .multiply
  | .divideAssign => some .divide
  | _ => none

/-- The tree of a call, if the count of arguments is right; a random node is bound to the provider. -/
def Callee.call? (provider : ProviderId) : Callee → List Node → Option Node
  | .math f, [argument] => some (.mathCall f argument)
  | .multi f, first :: rest => some (.multiCall f (first :: rest))
  | .randomValue, [] => some (.randomValue provider)
  | .randomInteger, [bound] => some (.randomInteger provider bound)
  | .randomBelow, [bound] => some (.randomBelow provider bound)
  | _, _ => none

namespace Grammar

/-! ## Operands -/

/-- Expressions separated by commas, at most `fuel` of them. -/
def arguments (expression : Production) :
    (fuel : Nat) → Cursor → Except Failure (List Node × Cursor)
  | 0, c => .ok ([], c)
  | fuel + 1, c => do
    let (first, c) ← expression c
    if c.lexeme = .mark .comma then
      let (rest, c) ← arguments expression fuel c.advance
      return (first :: rest, c)
    else return ([first], c)

/-- The arguments of a call up to its closing parenthesis, which may be none. -/
def argumentList (inner : Level) (c : Cursor) : Except Failure (List Node × Cursor) :=
  if c.lexeme = .mark .closeParen then .ok ([], c)
  else arguments inner.expression (c.rest.length + 1) c

/-- A call of `name`, a token at `index`, from behind the opening parenthesis. The name is resolved
after the arguments have been read. -/
def call (provider : ProviderId) (inner : Level) (name : Text) (index : Nat) : Production :=
    fun c => do
  let (nodes, c) ← argumentList inner c
  let c ← c.expect .closeParen .unclosedCall
  match Callee.ofName? name with
  | none => .error ⟨.unknownFunction name, index⟩
  | some callee =>
    match callee.call? provider nodes with
    | some node => .ok (node, c)
    | none => .error ⟨.wrongArity name callee.arity nodes.length, index⟩

/-- An operand: an expression in parentheses, a number, a call or a name. -/
def primary (provider : ProviderId) (inner : Level) : Production := fun c =>
  match c.lexeme with
  | .mark .openParen => do
    let (node, c) ← inner.expression c.advance
    let c ← c.expect .closeParen .unclosedGroup
    return (node, c)
  | .number digits => .ok (.constant (Number.ofNumeral digits), c.advance)
  | .name name =>
    let next := c.advance
    if next.token.joinsWith .openParen then call provider inner name c.index next.advance
    else .ok (.read name, next.use name)
  | .endOfText => c.fail .unexpectedEnd
  | lexeme => c.fail (.unexpectedToken lexeme.text)

/-! ## Operators -/

/-- An operand under any number of signs; a plus sign leaves no trace. -/
def unary (provider : ProviderId) (inner : Level) : Production := fun c =>
  match c.lexeme with
  | .operator .minus => do
    let (operand, c) ← inner.unary c.advance
    return (.negate operand, c)
  | .operator .plus => inner.unary c.advance
  | .operator .not => do
    let (operand, c) ← inner.unary c.advance
    return (.not operand, c)
  | _ => primary provider inner c

/-- A power, whose right side is a power again. -/
def exponent (provider : ProviderId) (inner : Level) : Production := fun c => do
  let (base, c) ← unary provider inner c
  if c.token.joining? = some .caret then
    let (power, c) ← inner.exponent c.advance
    return (.arithmetic .power base power, c)
  else return (base, c)

/-- The rest of a chain of operands that group to the left, at most `fuel` of them. -/
def chain (operand : Production) (build? : Operator → Option (Node → Node → Node)) :
    (fuel : Nat) → Node → Production
  | 0, left, c => .ok (left, c)
  | fuel + 1, left, c =>
    match c.token.joining?.bind build? with
    | none => .ok (left, c)
    | some build => do
      let (right, c) ← operand c.advance
      chain operand build? fuel (build left right) c

/-- Operands that group to the left. -/
def leftChain (operand : Production) (build? : Operator → Option (Node → Node → Node)) :
    Production := fun c => do
  let (left, c) ← operand c
  chain operand build? (c.rest.length + 1) left c

/-- A product of powers. -/
def multiplicative (provider : ProviderId) (inner : Level) : Production :=
  leftChain (exponent provider inner) Operator.multiplicative?

/-- A sum of products. -/
def additive (provider : ProviderId) (inner : Level) : Production :=
  leftChain (multiplicative provider inner) Operator.additive?

/-- A sum, or one comparison of two. -/
def comparison (provider : ProviderId) (inner : Level) : Production := fun c => do
  let (left, c) ← additive provider inner c
  match c.token.joining?.bind Operator.comparison? with
  | none => return (left, c)
  | some build =>
    let (right, c) ← additive provider inner c.advance
    return (build left right, c)

/-- Comparisons that all have to hold. -/
def conjunction (provider : ProviderId) (inner : Level) : Production :=
  leftChain (comparison provider inner) Operator.conjunction?

/-- Conjunctions one of which has to hold. -/
def disjunction (provider : ProviderId) (inner : Level) : Production :=
  leftChain (conjunction provider inner) Operator.disjunction?

/-- A disjunction, or a choice between two values on one. The second value is an expression, so
that choices group to the right. -/
def choice (provider : ProviderId) (inner : Level) : Production := fun c => do
  let (condition, c) ← disjunction provider inner c
  if c.token.joinsWith .question then
    let (whenTrue, c) ← disjunction provider inner c.advance
    let c ← c.expect .colon .incompleteChoice
    let (whenFalse, c) ← inner.expression c
    return (.choice condition whenTrue whenFalse, c)
  else return (condition, c)

/-! ## Statements -/

/-- One tree for several statements: none gives `whenEmpty`, and one is itself. -/
def collapse (whenEmpty : Node) : List Node → Node
  | [] => whenEmpty
  | [statement] => statement
  | statements => .sequence statements

/-- Statements up to a lexeme that ends them, at most `fuel` of them. Semicolons behind each are
skipped. -/
def statements (statement : Production) (ends : Lexeme → Bool) :
    (fuel : Nat) → Cursor → Except Failure (List Node × Cursor)
  | 0, c => .ok ([], c)
  | fuel + 1, c =>
    if ends c.lexeme then .ok ([], c)
    else do
      let (first, c) ← statement c
      let (rest, c) ← statements statement ends fuel c.skipSemicolons
      return (first :: rest, c)

/-- All statements from here up to a lexeme that ends them. -/
def statementList (inner : Level) (ends : Lexeme → Bool) (c : Cursor) :
    Except Failure (List Node × Cursor) :=
  let c := c.skipSemicolons
  statements inner.statement ends (c.rest.length + 1) c

/-- The end of the text. -/
def endsProgram (l : Lexeme) : Bool := l = .endOfText

/-- The end of a block, or of the text. -/
def endsBlock (l : Lexeme) : Bool := l = .mark .closeBrace || l = .endOfText

/-- A declaration. The name is local from its first value on. -/
def declaration (inner : Level) : Production := fun c =>
  let c := c.advance
  match c.lexeme with
  | .name name =>
    let c := c.advance.bind name
    if c.token.joining? = some .assign then do
      let (initializer, c) ← inner.expression c.advance
      return (.declareAs name initializer, c)
    else .ok (.declare name, c)
  | _ => c.fail .missingName

/-- The cursor behind one semicolon that stands before the other statement of a conditional. -/
def skipBeforeElse (c : Cursor) : Cursor :=
  if c.lexeme = .mark .semicolon && c.following.lexeme.isElse then c.advance else c

/-- A conditional statement. -/
def conditional (inner : Level) : Production := fun c => do
  let c ← c.advance.expect .openParen .missingCondition
  let (condition, c) ← inner.expression c
  let c ← c.expect .closeParen .unclosedCondition
  let (body, c) ← inner.statement c
  let c := skipBeforeElse c
  if c.lexeme.isElse then
    let (otherwise, c) ← inner.statement c.advance
    return (.ifElse condition body otherwise, c)
  else return (.ifThen condition body, c)

/-- A block. -/
def block (inner : Level) : Production := fun c => do
  let (nodes, c) ← statementList inner endsBlock c.advance
  let c ← c.expect .closeBrace .unclosedBlock
  return (collapse .empty nodes, c)

/-- An assignment to a name, which is local behind it, or an expression. -/
def assignment (inner : Level) : Production := fun c =>
  match c.lexeme, c.following.joining?.bind Operator.assignment? with
  | .name name, some op => do
    let (value, c) ← inner.expression c.advance.advance
    return (.assign op name value, c.bind name)
  | _, _ => inner.expression c

/-- A statement. -/
def statement (inner : Level) : Production := fun c =>
  if c.lexeme.isLet then declaration inner c
  else if c.lexeme.isIf then conditional inner c
  else if c.lexeme = .mark .openBrace then block inner c
  else assignment inner c

end Grammar

/-! ## Levels of nesting -/

namespace Level

/-- The level at which nothing may nest. -/
def exhausted (limit : Nat) : Level where
  statement c := c.fail (.tooDeep limit)
  expression c := c.fail (.tooDeep limit)
  exponent c := c.fail (.tooDeep limit)
  unary c := c.fail (.tooDeep limit)

/-- The level above another. -/
def deepen (provider : ProviderId) (inner : Level) : Level where
  statement := Grammar.statement inner
  expression := Grammar.choice provider inner
  exponent := Grammar.exponent provider inner
  unary := Grammar.unary provider inner

/-- The level from which `budget` more levels may be opened. -/
def ofBudget (provider : ProviderId) (limit : Nat) : (budget : Nat) → Level
  | 0 => exhausted limit
  | budget + 1 => (ofBudget provider limit budget).deepen provider

/-- The statements of a text, which nest into this level, and the names met in them. -/
def readProgram (inner : Level) (tokens : List Token) : Except Failure (List Node × Scope) := do
  let (nodes, c) ← Grammar.statementList inner Grammar.endsProgram (Cursor.start tokens)
  return (nodes, c.scope)

end Level

/-- How many productions may be nested in each other. -/
def nestingLimit : Nat := 256

end Formulary
