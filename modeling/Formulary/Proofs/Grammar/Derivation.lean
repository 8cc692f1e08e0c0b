import Formulary.Grammar.Production

/-!
# The grammar as a relation

The language of formulas, said without a reader: which tokens are a phrase of which kind, and which
trees they stand for. A phrase is judged together with the tokens that follow it, since nothing may
stop short of a token that could continue it.

- `Derives ρ d k ts nodes rest` says that `ts`, followed by `rest`, is a phrase of kind `k` that
  stands for the trees `nodes`, whose random nodes are bound to the provider `ρ`. There is one rule
  for each form of a phrase. The depth `d` counts how many statements, expressions, right sides of
  powers and operands of signs are open at once below the phrase, where most are.
- `Token.Joins` is the one way in which an operator, a question mark, an assignment or the
  parenthesis of a call goes on with a phrase: no line break stands before it.
- `Program` is the language of whole texts.
-/

namespace Formulary

/-- A token that says `l` and goes on with the line. -/
def Token.Joins (t : Token) (l : Lexeme) : Prop := t.lexeme = l ∧ t.lineBreakBefore = false

namespace Grammar

/-! ## What operators and calls stand for -/

/-- The layers of operators that group to the left, from loose to tight. -/
inductive Layer where
  | disjunction
  | conjunction
  | additive
  | multiplicative
  deriving DecidableEq, Repr

/-- The operators of a layer and the trees that they build. -/
inductive Layer.Builds : Layer → Operator → (Node → Node → Node) → Prop where
  | or : Builds .disjunction .or (.logical .or)
  | and : Builds .conjunction .and (.logical .and)
  | plus : Builds .additive .plus (.arithmetic .add)
  | minus : Builds .additive .minus (.arithmetic .subtract)
  | times : Builds .multiplicative .times (.arithmetic .multiply)
  | divide : Builds .multiplicative .divide (.arithmetic .divide)
  | percent : Builds .multiplicative .percent (.arithmetic .remainder)

/-- The operators that compare. -/
inductive Compares : Operator → ComparisonOp → Prop where
  | less : Compares .less .less
  | lessEqual : Compares .lessEqual .lessEqual
  | greater : Compares .greater .greater
  | greaterEqual : Compares .greaterEqual .greaterEqual
  | equal : Compares .equal .equal
  | notEqual : Compares .notEqual .notEqual

/-- The operators that assign. -/
inductive Assigns : Operator → AssignmentOp → Prop where
  | set : Assigns .assign .set
  | add : Assigns .addAssign .add
  | subtract : Assigns .subtractAssign .subtract
  | multiply : Assigns .multiplyAssign .multiply
  | divide : Assigns .divideAssign .divide

/-- The signs that stand before an operand; a plus sign leaves no trace. -/
inductive Signs : Operator → (Node → Node) → Prop where
  | minus : Signs .minus .negate
  | plus : Signs .plus (fun operand => operand)
  | not : Signs .not .not

/-- The calls: which names may be called with which arguments. A random node is bound to the
provider `ρ`. -/
inductive Calls (ρ : ProviderId) : Text → List Node → Node → Prop where
  | math (f : MathFunction) (argument : Node) : Calls ρ f.name [argument] (.mathCall f argument)
  | multi (f : MultiFunction) (first : Node) (others : List Node) :
      Calls ρ f.name (first :: others) (.multiCall f (first :: others))
  | randomValue : Calls ρ (Text.ofString "random") [] (.randomValue ρ)
  | randomInteger (bound : Node) : Calls ρ (Text.ofString "rand") [bound] (.randomInteger ρ bound)
  | randomBelow (bound : Node) : Calls ρ (Text.ofString "randf") [bound] (.randomBelow ρ bound)

/-! ## What may follow -/

/-- The tokens go on with the line by `l`. -/
def Continues : List Token → Lexeme → Prop
  | [], _ => False
  | t :: _, l => t.Joins l

/-- The tokens go on with the line by an operator of a layer. -/
def ContinuesLayer (rest : List Token) (l : Layer) : Prop :=
  ∃ op build, l.Builds op build ∧ Continues rest (.operator op)

/-- The tokens go on with the line by a comparison. -/
def ContinuesComparison (rest : List Token) : Prop :=
  ∃ op cmp, Compares op cmp ∧ Continues rest (.operator op)

/-- The tokens go on with the line by an assignment. -/
def ContinuesAssignment (rest : List Token) : Prop :=
  ∃ op asg, Assigns op asg ∧ Continues rest (.operator op)

/-- The tokens open the other statement of a conditional, perhaps behind one semicolon. -/
def OpensElse : List Token → Prop
  | [] => False
  | [t] => t.lexeme.isElse
  | t :: u :: _ => t.lexeme.isElse ∨ t.lexeme = .mark .semicolon ∧ u.lexeme.isElse

/-- The tokens open a statement that is not an expression: by a word of the language, or by a name
that is assigned to. -/
def OpensSpecial : List Token → Prop
  | [] => False
  | t :: rest =>
    t.lexeme.isLet ∨ t.lexeme.isIf ∨ (∃ name, t.lexeme = .name name) ∧ ContinuesAssignment rest

/-- What may stand between a statement and the word that opens the other one: at most one
semicolon. -/
def Separator : List Token → Prop
  | [] => True
  | [t] => t.lexeme = .mark .semicolon
  | _ => False

/-! ## Phrases -/

/-- The kinds of phrases. -/
inductive Category where
  /-- Statements with any number of semicolons around them. -/
  | statements
  /-- One statement. -/
  | statement
  /-- An expression. -/
  | expression
  /-- Operands of a layer up to the last that can be joined on. -/
  | layer (l : Layer)
  /-- Operands of a layer, after which more may come. -/
  | run (l : Layer)
  /-- A sum, or one comparison of two. -/
  | comparison
  /-- A power. -/
  | exponent
  /-- An operand under signs. -/
  | unary
  /-- An operand. -/
  | primary
  /-- Arguments separated by commas, at least one. -/
  | arguments
  deriving DecidableEq, Repr

/-- What the operators of a layer join. -/
def Layer.operand : Layer → Category
  | .disjunction => .layer .conjunction
  | .conjunction => .comparison
  | .additive => .layer .multiplicative
  | .multiplicative => .exponent

/-- `Derives ρ d k ts nodes rest`: the tokens `ts` in front of `rest` are a phrase of kind `k`; it
stands for the trees `nodes`, one of them unless it is a list, and nests `d` levels deep. -/
inductive Derives (ρ : ProviderId) :
    Nat → Category → List Token → List Node → List Token → Prop where
  -- statements, with any number of semicolons around them
  | none {rest} : Derives ρ 0 .statements [] [] rest
  | semicolon {d t ts nodes rest} (mark : t.lexeme = .mark .semicolon)
      (others : Derives ρ d .statements ts nodes rest) :
      Derives ρ d .statements (t :: ts) nodes rest
  | cons {d e ts us node nodes rest} (first : Derives ρ d .statement ts [node] (us ++ rest))
      (others : Derives ρ e .statements us nodes rest) :
      Derives ρ (max (d + 1) e) .statements (ts ++ us) (node :: nodes) rest
  -- the forms of a statement
  | declare {l t name rest} (word : l.lexeme.isLet) (target : t.lexeme = .name name)
      (ends : ¬ Continues rest (.operator .assign)) :
      Derives ρ 0 .statement [l, t] [.declare name] rest
  | declareAs {d l t o ts name value rest} (word : l.lexeme.isLet) (target : t.lexeme = .name name)
      (sign : o.Joins (.operator .assign)) (initializer : Derives ρ d .expression ts [value] rest) :
      Derives ρ (d + 1) .statement (l :: t :: o :: ts) [.declareAs name value] rest
  -- the other statement is never left for an outer conditional
  | ifThen {d e i p q ts us condition body rest} (word : i.lexeme.isIf)
      (opening : p.lexeme = .mark .openParen)
      (test : Derives ρ d .expression ts [condition] (q :: (us ++ rest)))
      (closing : q.lexeme = .mark .closeParen)
      (branch : Derives ρ e .statement us [body] rest) (ends : ¬ OpensElse rest) :
      Derives ρ (max d e + 1) .statement (i :: p :: (ts ++ q :: us)) [.ifThen condition body] rest
  | ifElse {d e f i p q w ts us seps vs condition body otherwise rest} (word : i.lexeme.isIf)
      (opening : p.lexeme = .mark .openParen)
      (test : Derives ρ d .expression ts [condition] (q :: (us ++ (seps ++ w :: (vs ++ rest)))))
      (closing : q.lexeme = .mark .closeParen)
      (branch : Derives ρ e .statement us [body] (seps ++ w :: (vs ++ rest)))
      (separator : Separator seps) (other : w.lexeme.isElse)
      (alternative : Derives ρ f .statement vs [otherwise] rest) :
      Derives ρ (max d (max e f) + 1) .statement (i :: p :: (ts ++ q :: (us ++ (seps ++ w :: vs))))
        [.ifElse condition body otherwise] rest
  | block {d p q ts nodes rest} (opening : p.lexeme = .mark .openBrace)
      (body : Derives ρ d .statements ts nodes (q :: rest)) (closing : q.lexeme = .mark .closeBrace) :
      Derives ρ d .statement (p :: (ts ++ [q])) [collapse .empty nodes] rest
  -- words of the language are no targets, and an expression is what is left over
  | assign {d t o ts name op asg value rest} (target : t.lexeme = .name name)
      (plain : ¬ t.lexeme.isLet ∧ ¬ t.lexeme.isIf) (kind : Assigns op asg)
      (sign : o.Joins (.operator op)) (assigned : Derives ρ d .expression ts [value] rest) :
      Derives ρ (d + 1) .statement (t :: o :: ts) [.assign asg name value] rest
  | evaluate {d ts node rest} (value : Derives ρ d .expression ts [node] rest)
      (plain : ¬ OpensSpecial (ts ++ rest)) :
      Derives ρ (d + 1) .statement ts [node] rest
  -- expressions, from loose to tight
  | plain {d ts node rest} (value : Derives ρ d (.layer .disjunction) ts [node] rest)
      (ends : ¬ Continues rest (.mark .question)) :
      Derives ρ d .expression ts [node] rest
  | choice {d e f q k ts us vs condition whenTrue whenFalse rest}
      (test : Derives ρ d (.layer .disjunction) ts [condition] (q :: (us ++ k :: (vs ++ rest))))
      (question : q.Joins (.mark .question))
      (left : Derives ρ e (.layer .disjunction) us [whenTrue] (k :: (vs ++ rest)))
      (colon : k.lexeme = .mark .colon) (right : Derives ρ f .expression vs [whenFalse] rest) :
      Derives ρ (max d (max e (f + 1))) .expression (ts ++ q :: (us ++ k :: vs))
        [.choice condition whenTrue whenFalse] rest
  -- a layer is a run that nothing can be joined to
  | layer {d l ts node rest} (operands : Derives ρ d (.run l) ts [node] rest)
      (ends : ¬ ContinuesLayer rest l) :
      Derives ρ d (.layer l) ts [node] rest
  | first {d l ts node rest} (operand : Derives ρ d l.operand ts [node] rest) :
      Derives ρ d (.run l) ts [node] rest
  | next {d e l o ts us op build left right rest}
      (operands : Derives ρ d (.run l) ts [left] (o :: (us ++ rest))) (kind : l.Builds op build)
      (sign : o.Joins (.operator op)) (operand : Derives ρ e l.operand us [right] rest) :
      Derives ρ (max d e) (.run l) (ts ++ o :: us) [build left right] rest
  -- at most one comparison, so nothing is asked of what follows it
  | uncompared {d ts node rest} (value : Derives ρ d (.layer .additive) ts [node] rest)
      (ends : ¬ ContinuesComparison rest) :
      Derives ρ d .comparison ts [node] rest
  | compared {d e o ts us op cmp left right rest}
      (smaller : Derives ρ d (.layer .additive) ts [left] (o :: (us ++ rest)))
      (kind : Compares op cmp) (sign : o.Joins (.operator op))
      (larger : Derives ρ e (.layer .additive) us [right] rest) :
      Derives ρ (max d e) .comparison (ts ++ o :: us) [.comparison cmp left right] rest
  -- powers group to the right, and signs bind tighter
  | base {d ts node rest} (value : Derives ρ d .unary ts [node] rest)
      (ends : ¬ Continues rest (.operator .caret)) :
      Derives ρ d .exponent ts [node] rest
  | power {d e o ts us left right rest} (raised : Derives ρ d .unary ts [left] (o :: (us ++ rest)))
      (sign : o.Joins (.operator .caret)) (power : Derives ρ e .exponent us [right] rest) :
      Derives ρ (max d (e + 1)) .exponent (ts ++ o :: us) [.arithmetic .power left right] rest
  | unsigned {d ts node rest} (value : Derives ρ d .primary ts [node] rest) :
      Derives ρ d .unary ts [node] rest
  | signed {d o ts op build node rest} (kind : Signs op build) (sign : o.lexeme = .operator op)
      (value : Derives ρ d .unary ts [node] rest) :
      Derives ρ (d + 1) .unary (o :: ts) [build node] rest
  -- operands
  | group {d p q ts node rest} (opening : p.lexeme = .mark .openParen)
      (inner : Derives ρ d .expression ts [node] (q :: rest))
      (closing : q.lexeme = .mark .closeParen) :
      Derives ρ (d + 1) .primary (p :: (ts ++ [q])) [node] rest
  | number {t digits rest} (literal : t.lexeme = .number digits) :
      Derives ρ 0 .primary [t] [.constant (Number.ofNumeral digits)] rest
  -- a name before a parenthesis on the same line is called
  | read {t name rest} (target : t.lexeme = .name name)
      (ends : ¬ Continues rest (.mark .openParen)) :
      Derives ρ 0 .primary [t] [.read name] rest
  | callEmpty {t p q name node rest} (callee : t.lexeme = .name name)
      (opening : p.Joins (.mark .openParen)) (closing : q.lexeme = .mark .closeParen)
      (call : Calls ρ name [] node) :
      Derives ρ 0 .primary [t, p, q] [node] rest
  | call {d t p q ts name nodes node rest} (callee : t.lexeme = .name name)
      (opening : p.Joins (.mark .openParen)) (given : Derives ρ d .arguments ts nodes (q :: rest))
      (closing : q.lexeme = .mark .closeParen) (call : Calls ρ name nodes node) :
      Derives ρ d .primary (t :: p :: (ts ++ [q])) [node] rest
  | last {d ts node rest} (argument : Derives ρ d .expression ts [node] rest) :
      Derives ρ (d + 1) .arguments ts [node] rest
  | more {d e k ts us node nodes rest}
      (argument : Derives ρ d .expression ts [node] (k :: (us ++ rest)))
      (comma : k.lexeme = .mark .comma) (others : Derives ρ e .arguments us nodes rest) :
      Derives ρ (max (d + 1) e) .arguments (ts ++ k :: us) (node :: nodes) rest

variable {ρ : ProviderId}

/-- One statement is a list of statements. -/
theorem Derives.single {d : Nat} {ts rest : List Token} {node : Node}
    (h : Derives ρ d .statement ts [node] rest) : Derives ρ (d + 1) .statements ts [node] rest := by
  have hcons : Derives ρ (max (d + 1) 0) .statements (ts ++ []) [node] rest := .cons h .none
  rwa [List.append_nil, Nat.max_zero] at hcons

/-! ## How a phrase begins -/

/-- The kinds of phrases that are part of an expression. -/
def Category.IsExpression : Category → Prop
  | .statements => False
  | .statement => False
  | _ => True

theorem Layer.isExpression_operand (l : Layer) : l.operand.IsExpression := by
  cases l <;> trivial

/-- A lexeme that an expression may begin with. -/
def Opens : Lexeme → Prop
  | .number _ => True
  | .name _ => True
  | .operator op => ∃ build, Signs op build
  | .mark m => m = .openParen
  | .endOfText => False

/-- An expression begins with a token that opens one. -/
theorem Derives.opens {d : Nat} {k : Category} {ts rest : List Token} {nodes : List Node}
    (h : Derives ρ d k ts nodes rest) (hk : k.IsExpression) :
    ∃ t us, ts = t :: us ∧ Opens t.lexeme := by
  induction h with
  | none | semicolon | cons | declare | declareAs | ifThen | ifElse | block | assign | evaluate =>
      exact hk.elim
  | plain _ _ ih | layer _ _ ih | uncompared _ _ ih | base _ _ ih => exact ih trivial
  | unsigned _ ih | last _ ih => exact ih trivial
  | first _ ih => exact ih (Layer.isExpression_operand _)
  | choice _ _ _ _ _ ih _ _ | next _ _ _ _ ih _ | compared _ _ _ _ ih _ | power _ _ _ ih _
  | more _ _ _ ih _ =>
      obtain ⟨t, us, rfl, ht⟩ := ih trivial
      exact ⟨t, _, rfl, ht⟩
  | signed kind sign => exact ⟨_, _, rfl, by rw [sign]; exact ⟨_, kind⟩⟩
  | group opening => exact ⟨_, _, rfl, by rw [opening]; exact rfl⟩
  | number literal => exact ⟨_, _, rfl, by rw [literal]; exact trivial⟩
  | read target => exact ⟨_, _, rfl, by rw [target]; exact trivial⟩
  | callEmpty callee | call callee => exact ⟨_, _, rfl, by rw [callee]; exact trivial⟩

/-- A name that an expression begins with is not assigned to. -/
theorem Derives.not_continuesAssignment {d : Nat} {k : Category} {ts rest : List Token}
    {nodes : List Node} (h : Derives ρ d k ts nodes rest) (hk : k.IsExpression)
    (hrest : ¬ ContinuesAssignment rest) {t : Token} {us : List Token} {name : Text}
    (hts : ts = t :: us) (hname : t.lexeme = .name name) : ¬ ContinuesAssignment (us ++ rest) := by
  have hsign : ∀ {o : Token} {more : List Token} {op : Operator}, o.Joins (.operator op) →
      (∀ asg, ¬ Assigns op asg) → ¬ ContinuesAssignment (o :: more) := by
    rintro o more op hop hasg ⟨op', asg, hassigns, hc⟩
    obtain rfl := Lexeme.operator.inj (hop.1.symm.trans hc.1)
    exact hasg asg hassigns
  have hmark : ∀ {o : Token} {more : List Token} {m : Mark}, o.lexeme = .mark m →
      ¬ ContinuesAssignment (o :: more) := by
    rintro o more m hm ⟨op', asg, -, hc⟩
    exact Lexeme.noConfusion (hm.symm.trans hc.1)
  induction h generalizing us with
  | none | semicolon | cons | declare | declareAs | ifThen | ifElse | block | assign | evaluate =>
      exact hk.elim
  | plain _ _ ih | layer _ _ ih | uncompared _ _ ih | base _ _ ih => exact ih trivial hrest hts
  | unsigned _ ih | last _ ih => exact ih trivial hrest hts
  | first _ ih => exact ih (Layer.isExpression_operand _) hrest hts
  | choice test question _ _ _ ih =>
      obtain ⟨t', us', rfl, -⟩ := test.opens trivial
      obtain ⟨rfl, rfl⟩ := List.cons.inj hts
      have := ih trivial (hmark question.1) rfl
      simpa using this
  | next operands kind sign _ ih =>
      obtain ⟨t', us', rfl, -⟩ := operands.opens trivial
      obtain ⟨rfl, rfl⟩ := List.cons.inj hts
      have := ih trivial (hsign sign (by cases kind <;> exact fun _ => nofun)) rfl
      simpa using this
  | compared smaller kind sign _ ih =>
      obtain ⟨t', us', rfl, -⟩ := smaller.opens trivial
      obtain ⟨rfl, rfl⟩ := List.cons.inj hts
      have := ih trivial (hsign sign (by cases kind <;> exact fun _ => nofun)) rfl
      simpa using this
  | power raised sign _ ih =>
      obtain ⟨t', us', rfl, -⟩ := raised.opens trivial
      obtain ⟨rfl, rfl⟩ := List.cons.inj hts
      have := ih trivial (hsign sign fun _ => nofun) rfl
      simpa using this
  | more argument comma _ ih =>
      obtain ⟨t', us', rfl, -⟩ := argument.opens trivial
      obtain ⟨rfl, rfl⟩ := List.cons.inj hts
      have := ih trivial (hmark comma) rfl
      simpa using this
  -- these begin with no name
  | signed _ sign =>
      obtain ⟨rfl, -⟩ := List.cons.inj hts
      exact Lexeme.noConfusion (sign.symm.trans hname)
  | group opening =>
      obtain ⟨rfl, -⟩ := List.cons.inj hts
      exact Lexeme.noConfusion (opening.symm.trans hname)
  | number literal =>
      obtain ⟨rfl, -⟩ := List.cons.inj hts
      exact Lexeme.noConfusion (literal.symm.trans hname)
  | read =>
      obtain ⟨rfl, rfl⟩ := List.cons.inj hts
      exact hrest
  | callEmpty _ opening | call _ opening =>
      obtain ⟨rfl, rfl⟩ := List.cons.inj hts
      exact hmark opening.1

/-- A statement begins with a token that opens an expression, or with a brace. -/
theorem Derives.statement_opens {d : Nat} {ts rest : List Token} {nodes : List Node}
    (h : Derives ρ d .statement ts nodes rest) :
    ∃ t us, ts = t :: us ∧ (Opens t.lexeme ∨ t.lexeme = .mark .openBrace) := by
  cases h with
  | declare word => exact ⟨_, _, rfl, .inl (by rw [of_decide_eq_true word]; exact trivial)⟩
  | declareAs word => exact ⟨_, _, rfl, .inl (by rw [of_decide_eq_true word]; exact trivial)⟩
  | ifThen word => exact ⟨_, _, rfl, .inl (by rw [of_decide_eq_true word]; exact trivial)⟩
  | ifElse word => exact ⟨_, _, rfl, .inl (by rw [of_decide_eq_true word]; exact trivial)⟩
  | block opening => exact ⟨_, _, rfl, .inr opening⟩
  | assign target => exact ⟨_, _, rfl, .inl (by rw [target]; exact trivial)⟩
  | evaluate value =>
      obtain ⟨t, us, rfl, ht⟩ := value.opens trivial
      exact ⟨t, us, rfl, .inl ht⟩

/-- The tokens of a text, without its end, are a program with the tree `root` that nests `depth`
levels deep. A program without statements is the constant zero. -/
def Program (ρ : ProviderId) (depth : Nat) (tokens : List Token) (root : Node) : Prop :=
  ∃ nodes, Derives ρ depth .statements tokens nodes [] ∧ root = collapse (.constant 0) nodes

end Grammar

end Formulary
