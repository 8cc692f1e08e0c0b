import Formulary.Proofs.Grammar.Tables
import Formulary.Proofs.Printing.Words

/-!
# Trees that can be written, and their texts

The trees of the language with their literals and names as texts, and a printer that puts
parentheses and braces only where they are needed.

- `Expression` and `Statement` are the trees; that a sequence has two statements, that a call has
  arguments and that a target is no word of the language is part of their types. `Expression.node`
  and `Statement.node` are the trees that are evaluated.
- `Expression.words` and `Statement.words` are the words of a tree, and `Statement.print` is its
  text.
- `Statement.programDepth` counts how many levels the text nests.
-/

namespace Formulary.Printing

/-! ## Trees -/

/-- An operator between two operands. -/
inductive Binary where
  | arithmetic (op : ArithmeticOp)
  | comparison (op : ComparisonOp)
  | logical (op : LogicalOp)

/-- An operator before its operand. -/
inductive Sign where
  | negate
  | not

mutual

/-- An expression. -/
inductive Expression where
  | number (literal : Numeral)
  | read (name : Identifier)
  | signed (sign : Sign) (operand : Expression)
  | binary (op : Binary) (left right : Expression)
  | choice (condition whenTrue whenFalse : Expression)
  | mathCall (function : MathFunction) (argument : Expression)
  | multiCall (function : MultiFunction) (arguments : Arguments)
  | randomValue
  | randomInteger (bound : Expression)
  | randomBelow (bound : Expression)

/-- One argument or more. -/
inductive Arguments where
  | last (argument : Expression)
  | more (argument : Expression) (others : Arguments)

end

mutual

/-- A statement. -/
inductive Statement where
  | evaluate (value : Expression)
  | ifThen (condition : Expression) (body : Statement)
  | ifElse (condition : Expression) (body otherwise : Statement)
  | declare (name : Identifier)
  | declareAs (name : Identifier) (initializer : Expression)
  | assign (op : AssignmentOp) (target : Target) (value : Expression)
  | sequence (statements : Statements)
  | empty

/-- Two statements or more. -/
inductive Statements where
  | two (first second : Statement)
  | more (first : Statement) (others : Statements)

end

def Binary.build : Binary → Node → Node → Node
  | .arithmetic op => .arithmetic op
  | .comparison op => .comparison op
  | .logical op => .logical op

def Sign.build : Sign → Node → Node
  | .negate => .negate
  | .not => .not

mutual

/-- The tree that is evaluated, with the provider that its text is read with. -/
def Expression.node (ρ : ProviderId) : Expression → Node
  | .number literal => .constant (Number.ofNumeral literal.digits)
  | .read name => .read name.units
  | .signed sign x => sign.build (x.node ρ)
  | .binary op x y => op.build (x.node ρ) (y.node ρ)
  | .choice c x y => .choice (c.node ρ) (x.node ρ) (y.node ρ)
  | .mathCall f x => .mathCall f (x.node ρ)
  | .multiCall f xs => .multiCall f (xs.nodes ρ)
  | .randomValue => .randomValue ρ
  | .randomInteger x => .randomInteger ρ (x.node ρ)
  | .randomBelow x => .randomBelow ρ (x.node ρ)

def Arguments.nodes (ρ : ProviderId) : Arguments → List Node
  | .last x => [x.node ρ]
  | .more x xs => x.node ρ :: xs.nodes ρ

end

mutual

/-- The tree that is run. -/
def Statement.node (ρ : ProviderId) : Statement → Node
  | .evaluate x => x.node ρ
  | .ifThen c s => .ifThen (c.node ρ) (s.node ρ)
  | .ifElse c s t => .ifElse (c.node ρ) (s.node ρ) (t.node ρ)
  | .declare name => .declare name.units
  | .declareAs name x => .declareAs name.units (x.node ρ)
  | .assign op target x => .assign op target.units (x.node ρ)
  | .sequence ss => .sequence (ss.nodes ρ)
  | .empty => .empty

def Statements.nodes (ρ : ProviderId) : Statements → List Node
  | .two s t => [s.node ρ, t.node ρ]
  | .more s ss => s.node ρ :: ss.nodes ρ

end

/-! ## Precedence -/

namespace Binary

def operator : Binary → Operator
  | .arithmetic .add => .plus
  | .arithmetic .subtract => .minus
  | .arithmetic .multiply => .times
  | .arithmetic .divide => .divide
  | .arithmetic .power => .caret
  | .arithmetic .remainder => .percent
  | .comparison .less => .less
  | .comparison .lessEqual => .lessEqual
  | .comparison .greater => .greater
  | .comparison .greaterEqual => .greaterEqual
  | .comparison .equal => .equal
  | .comparison .notEqual => .notEqual
  | .logical .and => .and
  | .logical .or => .or

/-- The level of an operator, from loose to tight. -/
def level : Binary → Nat
  | .logical .or => 1
  | .logical .and => 2
  | .comparison _ => 3
  | .arithmetic .add | .arithmetic .subtract => 4
  | .arithmetic .multiply | .arithmetic .divide | .arithmetic .remainder => 5
  | .arithmetic .power => 6

/-- The level that the left operand has to have. -/
def left : Binary → Nat
  | .comparison _ => 4
  | .arithmetic .power => 7
  | op => op.level

/-- The level that the right operand has to have. -/
def right : Binary → Nat
  | .comparison _ => 4
  | .arithmetic .power => 6
  | op => op.level + 1

end Binary

def Sign.operator : Sign → Operator
  | .negate => .minus
  | .not => .not

/-- The level of an expression, from a choice at 0 to signs at 7 and operands at 8. -/
def Expression.level : Expression → Nat
  | .choice _ _ _ => 0
  | .binary op _ _ => op.level
  | .signed _ _ => 7
  | _ => 8

/-- A variable named like a word of the language. -/
def Expression.isReserved : Expression → Bool
  | .read name => reserved.contains name.units
  | _ => false

/-- An expression needs parentheses where it is too loose for its place, and where a statement would
begin with a word of the language. -/
def Expression.needsParens (x : Expression) (start : Bool) (level : Nat) : Bool :=
  x.level < level || start && x.isReserved

/-! ## Words -/

def letWord : Identifier := ⟨Text.ofString "let", by decide, by decide⟩

def ifWord : Identifier := ⟨Text.ofString "if", by decide, by decide⟩

def elseWord : Identifier := ⟨Text.ofString "else", by decide, by decide⟩

/-- The name of a function, as it is written. -/
def calleeWord (callee : Callee) : Identifier where
  units := callee.name
  starts := by
    cases callee with
    | math f => cases f <;> decide
    | multi f => cases f <;> decide
    | _ => decide
  continues := by
    cases callee with
    | math f => cases f <;> decide
    | multi f => cases f <;> decide
    | _ => decide

def assignmentOperator : AssignmentOp → Operator
  | .set => .assign
  | .add => .addAssign
  | .subtract => .subtractAssign
  | .multiply => .multiplyAssign
  | .divide => .divideAssign

def parens (ws : List Word) : List Word := .mark .openParen :: (ws ++ [.mark .closeParen])

def braces (ws : List Word) : List Word := .mark .openBrace :: (ws ++ [.mark .closeBrace])

/-- An expression in a place that needs a level, perhaps at the start of a statement. -/
def operand (x : Expression) (start : Bool) (level : Nat) (words : Bool → List Word) : List Word :=
  if x.needsParens start level then parens (words false) else words start

mutual

/-- The words of an expression, with no parentheses around all of it. -/
def Expression.words : Expression → Bool → List Word
  | .number literal, _ => [.number literal]
  | .read name, _ => [.name name]
  | .signed sign x, _ => .operator sign.operator :: operand x false 7 x.words
  | .binary op x y, start =>
    operand x start op.left x.words ++ .operator op.operator :: operand y false op.right y.words
  | .choice c x y, start =>
    operand c start 1 c.words ++ .mark .question ::
      (operand x false 1 x.words ++ .mark .colon :: operand y false 0 y.words)
  | .mathCall f x, _ => .name (calleeWord (.math f)) :: parens (operand x false 0 x.words)
  | .multiCall f xs, _ => .name (calleeWord (.multi f)) :: parens xs.words
  | .randomValue, _ => .name (calleeWord .randomValue) :: parens []
  | .randomInteger x, _ => .name (calleeWord .randomInteger) :: parens (operand x false 0 x.words)
  | .randomBelow x, _ => .name (calleeWord .randomBelow) :: parens (operand x false 0 x.words)

def Arguments.words : Arguments → List Word
  | .last x => operand x false 0 x.words
  | .more x xs => operand x false 0 x.words ++ .mark .comma :: xs.words

end

/-- A statement that is written with braces around it. -/
def Statement.isBraced : Statement → Bool
  | .sequence _ => true
  | .empty => true
  | _ => false

/-- A statement as the branch of a conditional: one pair of braces around it. -/
def branch (s : Statement) (words : List Word) : List Word :=
  if s.isBraced then words else braces words

mutual

/-- The words of a statement inside others. -/
def Statement.words : Statement → List Word
  | .evaluate x => operand x true 0 x.words
  | .ifThen c s => .name ifWord :: (parens (operand c false 0 c.words) ++ branch s s.words)
  | .ifElse c s t => .name ifWord :: (parens (operand c false 0 c.words)
      ++ (branch s s.words ++ .name elseWord :: branch t t.words))
  | .declare name => [.name letWord, .name name]
  | .declareAs name x =>
    .name letWord :: .name name :: .operator .assign :: operand x false 0 x.words
  | .assign op target x =>
    .name target.toIdentifier :: .operator (assignmentOperator op) :: operand x false 0 x.words
  | .sequence ss => braces ss.words
  | .empty => braces []

def Statements.words : Statements → List Word
  | .two s t => s.words ++ .mark .semicolon :: t.words
  | .more s ss => s.words ++ .mark .semicolon :: ss.words

end

/-- The words of a whole text: the statements of a sequence stand without braces. -/
def Statement.program : Statement → List Word
  | .sequence ss => ss.words
  | s => s.words

/-- The text of a statement. -/
def Statement.print (s : Statement) : Text := write s.program

example : Statement.print (.evaluate (.binary (.arithmetic .subtract) (.read letWord)
      (.binary (.arithmetic .subtract) (.read ifWord) (.read letWord))))
    = Text.ofString "( let ) - ( if - let )" := by rfl

/-! ## Depth

A level is opened by each statement and expression, by the right side of a power and by the operand
of a sign. -/

def Binary.depth (op : Binary) (left right : Nat) : Nat :=
  match op with
  | .arithmetic .power => max left (right + 1)
  | _ => max left right

/-- The depth of an expression in its place, where parentheses count. -/
def operandDepth (x : Expression) (start : Bool) (level : Nat) (depth : Bool → Nat) : Nat :=
  if x.needsParens start level then depth false + 1 else depth start

mutual

def Expression.depth : Expression → Bool → Nat
  | .number _, _ => 0
  | .read _, _ => 0
  | .signed _ x, _ => operandDepth x false 7 x.depth + 1
  | .binary op x y, start =>
    op.depth (operandDepth x start op.left x.depth) (operandDepth y false op.right y.depth)
  | .choice c x y, start =>
    max (operandDepth c start 1 c.depth)
      (max (operandDepth x false 1 x.depth) (operandDepth y false 0 y.depth + 1))
  | .mathCall _ x, _ => operandDepth x false 0 x.depth + 1
  | .multiCall _ xs, _ => xs.depth
  | .randomValue, _ => 0
  | .randomInteger x, _ => operandDepth x false 0 x.depth + 1
  | .randomBelow x, _ => operandDepth x false 0 x.depth + 1

def Arguments.depth : Arguments → Nat
  | .last x => operandDepth x false 0 x.depth + 1
  | .more x xs => max (operandDepth x false 0 x.depth + 1) xs.depth

end

def branchDepth (s : Statement) (depth : Nat) : Nat := if s.isBraced then depth else depth + 1

mutual

def Statement.depth : Statement → Nat
  | .evaluate x => operandDepth x true 0 x.depth + 1
  | .ifThen c s => max (operandDepth c false 0 c.depth) (branchDepth s s.depth) + 1
  | .ifElse c s t =>
    max (operandDepth c false 0 c.depth)
      (max (branchDepth s s.depth) (branchDepth t t.depth)) + 1
  | .declare _ => 0
  | .declareAs _ x => operandDepth x false 0 x.depth + 1
  | .assign _ _ x => operandDepth x false 0 x.depth + 1
  | .sequence ss => ss.depth
  | .empty => 0

def Statements.depth : Statements → Nat
  | .two s t => max (s.depth + 1) (t.depth + 1)
  | .more s ss => max (s.depth + 1) ss.depth

end

/-- The depth of a whole text. -/
def Statement.programDepth : Statement → Nat
  | .sequence ss => ss.depth
  | s => s.depth + 1

end Formulary.Printing
