import Formulary.Proofs.Grammar.Depth
import Formulary.Proofs.Grammar.Levels
import Formulary.Proofs.Printing.Syntax

/-!
# Printed trees are read back

The words of a tree are a phrase of the grammar that stands for the tree. Each lemma follows the
shape of a tree: the words of its parts are phrases in front of whatever the printer puts behind
them, and the words of the whole are put together by one rule of the grammar.

- `operand_derives` is the place of an operand, with or without parentheses.
- `Expression.derives`, `Statement.derives` and `Statements.derives` are the inductions.
- `Statement.program_derives` is a whole text, and `Statement.parse_print_iff` reads it back.
-/

namespace Formulary.Printing

open Grammar

variable {ρ : ProviderId}

/-! ## Expressions -/

theorem Binary.level_le (op : Binary) : op.level ≤ 8 := by
  unfold Binary.level
  split <;> decide

/-- No expression is printed on a tighter level than an operand in parentheses. -/
theorem Expression.level_le (x : Expression) : x.level ≤ 8 := by
  unfold Expression.level
  split
  · exact Nat.zero_le 8
  · exact Binary.level_le _
  · exact Nat.le_succ 7
  · exact Nat.le_refl 8

/-- The words of an expression are a phrase of its level, before all that does not go on with it. -/
def Expression.Derived (ρ : ProviderId) (x : Expression) : Prop :=
  ∀ start rest, Quiet (margin x.level) rest →
    Derives ρ (x.depth start) (.opened x.level) ((x.words start).map Word.token) [x.node ρ] rest

/-- A mark that binds nothing goes on with no expression. -/
theorem quiet_mark {m : Mark} (h : (Lexeme.mark m).strength? = none) (k : Nat)
    (rest : List Token) : Quiet k ((Word.mark m).token :: rest) := by
  refine .cons fun i hi => ?_
  exact nomatch h.symm.trans hi

/-- An expression in its place is a phrase of the level that the place asks for. -/
theorem operand_derives {x : Expression} (hx : x.Derived ρ) (start : Bool) {level : Nat}
    (hlevel : level ≤ 8) {rest : List Token} (hq : Quiet (margin level) rest) :
    Derives ρ (operandDepth x start level x.depth) (.opened level)
      ((operand x start level x.words).map Word.token) [x.node ρ] rest := by
  rw [operandDepth, operand]
  by_cases hparens : x.needsParens start level = true
  · rw [if_pos hparens, if_pos hparens, parens, List.map_cons, List.map_append]
    -- inside the parentheses every level will do
    have hclose := quiet_mark (m := .closeParen) rfl
    have hinner : Derives ρ (x.depth false) .expression ((x.words false).map Word.token) [x.node ρ]
        ((Word.mark .closeParen).token :: rest) :=
      (hx false _ (hclose _ rest)).loosen x.level_le (Nat.zero_le _) (hclose _ rest)
    have hgroup : Derives ρ (x.depth false + 1) (.opened 8) _ [x.node ρ] rest :=
      .group (p := (Word.mark .openParen).token) rfl hinner rfl
    exact hgroup.loosen (Nat.le_refl 8) hlevel hq
  · rw [if_neg hparens, if_neg hparens]
    have hle : level ≤ x.level := by
      rw [Expression.needsParens, Bool.or_eq_true, decide_eq_true_eq] at hparens
      exact Nat.le_of_not_lt fun hlt => hparens (.inl hlt)
    exact (hx start rest (hq.mono (margin_mono hle))).loosen x.level_le hle hq

/-- An operand to which nothing more can be joined. -/
theorem operand_closed {x : Expression} (hx : x.Derived ρ) (start : Bool) {level : Nat}
    (hlevel : level ≤ 8) {rest : List Token} (hq : Quiet level rest) :
    Derives ρ (operandDepth x start level x.depth) (.closed level)
      ((operand x start level x.words).map Word.token) [x.node ρ] rest :=
  (operand_derives hx start hlevel (hq.mono (le_margin level))).close hq

/-- An expression between parentheses or commas, or at the end of a statement. -/
theorem operand_expression {x : Expression} (hx : x.Derived ρ) (start : Bool) {rest : List Token}
    (hq : Quiet 0 rest) :
    Derives ρ (operandDepth x start 0 x.depth) .expression
      ((operand x start 0 x.words).map Word.token) [x.node ρ] rest :=
  operand_derives hx start (Nat.zero_le 8) hq

/-- A sign in front of a phrase is a phrase, one level deeper. -/
theorem sign_derives (sign : Sign) {d : Nat} {ts rest : List Token} {node : Node}
    (h : Derives ρ d .unary ts [node] rest) :
    Derives ρ (d + 1) .unary ((Word.operator sign.operator).token :: ts) [sign.build node] rest := by
  cases sign with
  | negate => exact .signed .minus rfl h
  | not => exact .signed .not rfl h

/-- Where an operator is one of a layer, its operands are. -/
theorem binary_layer {x y : Expression} (hx : x.Derived ρ) (hy : y.Derived ρ) (start : Bool) {l : Layer}
    {op : Operator} {build : Node → Node → Node} (kind : l.Builds op build) {rest : List Token}
    (hq : Quiet (margin l.level) rest) :
    Derives ρ
      (max (operandDepth x start l.level x.depth) (operandDepth y false (l.level + 1) y.depth))
      (.opened l.level)
      ((operand x start l.level x.words).map Word.token
        ++ (Word.operator op).token :: (operand y false (l.level + 1) y.words).map Word.token)
      [build (x.node ρ) (y.node ρ)] rest := by
  have hlevel : l.level + 1 ≤ 8 := by cases l <;> decide
  refine Derives.join kind (fun more hmore => ?_) ?_ hq
  · exact operand_derives hx start (Nat.le_of_succ_le hlevel) hmore
  · have hle : margin l.level ≤ margin (l.level + 1) := margin_mono (Nat.le_succ _)
    exact operand_derives hy false hlevel (hq.mono hle)

/-- Two sums joined by a comparison, with parentheses where they need them. -/
theorem binary_comparison {x y : Expression} (hx : x.Derived ρ) (hy : y.Derived ρ) (start : Bool)
    {op : Operator} {cmp : ComparisonOp} (kind : Compares op cmp) {rest : List Token}
    (hq : Quiet 3 rest) :
    Derives ρ (max (operandDepth x start 4 x.depth) (operandDepth y false 4 y.depth)) .comparison
      ((operand x start 4 x.words).map Word.token
        ++ (Word.operator op).token :: (operand y false 4 y.words).map Word.token)
      [.comparison cmp (x.node ρ) (y.node ρ)] rest := by
  have hsign : Quiet 4 ((Word.operator op).token
      :: ((operand y false 4 y.words).map Word.token ++ rest)) := by
    refine .cons fun i hi => ?_
    have h3 : (Lexeme.operator op).strength? = some 3 := by cases kind <;> rfl
    obtain rfl := Option.some.inj (h3.symm.trans hi)
    decide
  exact .compared (operand_closed hx start (by decide) hsign) kind ⟨rfl, rfl⟩
    (operand_closed hy false (by decide) (hq.mono (by decide)))

/-- A base and its power, which may be a power itself without parentheses. -/
theorem binary_power {x y : Expression} (hx : x.Derived ρ) (hy : y.Derived ρ) (start : Bool)
    {rest : List Token} (hq : Quiet 6 rest) :
    Derives ρ (max (operandDepth x start 7 x.depth) (operandDepth y false 6 y.depth + 1)) .exponent
      ((operand x start 7 x.words).map Word.token
        ++ (Word.operator .caret).token :: (operand y false 6 y.words).map Word.token)
      [.arithmetic .power (x.node ρ) (y.node ρ)] rest := by
  have hsign : Quiet 7 ((Word.operator .caret).token
      :: ((operand y false 6 y.words).map Word.token ++ rest)) := by
    refine .cons fun i hi => ?_
    obtain rfl : 6 = i := Option.some.inj hi
    decide
  exact .power (operand_derives hx start (by decide) hsign) ⟨rfl, rfl⟩
    (operand_derives hy false (by decide) hq)

/-- What an operator joins is a phrase of its level. -/
theorem binary_derives (op : Binary) {x y : Expression} (hx : x.Derived ρ) (hy : y.Derived ρ) :
    (Expression.binary op x y).Derived ρ := by
  intro start rest hq
  rw [Expression.depth, Expression.words, Expression.node, List.map_append, List.map_cons]
  match op with
  | .logical .or => exact binary_layer hx hy start .or hq
  | .logical .and => exact binary_layer hx hy start .and hq
  | .comparison .less => exact binary_comparison hx hy start .less hq
  | .comparison .lessEqual => exact binary_comparison hx hy start .lessEqual hq
  | .comparison .greater => exact binary_comparison hx hy start .greater hq
  | .comparison .greaterEqual => exact binary_comparison hx hy start .greaterEqual hq
  | .comparison .equal => exact binary_comparison hx hy start .equal hq
  | .comparison .notEqual => exact binary_comparison hx hy start .notEqual hq
  | .arithmetic .add => exact binary_layer hx hy start .plus hq
  | .arithmetic .subtract => exact binary_layer hx hy start .minus hq
  | .arithmetic .multiply => exact binary_layer hx hy start .times hq
  | .arithmetic .divide => exact binary_layer hx hy start .divide hq
  | .arithmetic .remainder => exact binary_layer hx hy start .percent hq
  | .arithmetic .power => exact binary_power hx hy start hq

/-- A choice is a phrase; only its second value may be a choice without parentheses. -/
theorem choice_derives {c x y : Expression} (hc : c.Derived ρ) (hx : x.Derived ρ) (hy : y.Derived ρ) :
    (Expression.choice c x y).Derived ρ := by
  intro start rest hq
  rw [Expression.depth, Expression.words, Expression.node]
  simp only [List.map_append, List.map_cons]
  have hquestion : ∀ more, Quiet 1 ((Word.mark .question).token :: more) := by
    refine fun more => .cons fun i hi => ?_
    obtain rfl : 0 = i := Option.some.inj hi
    decide
  exact .choice (operand_closed hc start (by decide) (hquestion _)) ⟨rfl, rfl⟩
    (operand_closed hx false (by decide) (quiet_mark rfl 1 _)) rfl (operand_expression hy false hq)

/-- A call with arguments. -/
theorem call_derives (callee : Callee) {ws : List Word} {d : Nat} {nodes : List Node} {node : Node}
    (hcall : Calls ρ callee.name nodes node)
    (hgiven : ∀ rest, Derives ρ d .arguments (ws.map Word.token) nodes
      ((Word.mark .closeParen).token :: rest)) (rest : List Token) :
    Derives ρ d .primary ((Word.name (calleeWord callee) :: parens ws).map Word.token) [node]
      rest := by
  rw [parens, List.map_cons, List.map_cons, List.map_append]
  exact .call rfl ⟨rfl, rfl⟩ (hgiven rest) rfl hcall

/-- One argument between the parentheses of a call. -/
theorem argument_derives {x : Expression} (hx : x.Derived ρ) (rest : List Token) :
    Derives ρ (operandDepth x false 0 x.depth + 1) .arguments
      ((operand x false 0 x.words).map Word.token) [x.node ρ]
      ((Word.mark .closeParen).token :: rest) :=
  .last (operand_expression hx false (quiet_mark rfl 0 rest))

/-- A function of several arguments may be called with any number of them but none. -/
theorem Arguments.calls (f : MultiFunction) (xs : Arguments) :
    Calls ρ f.name (xs.nodes ρ) (.multiCall f (xs.nodes ρ)) := by
  cases xs with
  | last x => exact .multi f (x.node ρ) []
  | more x xs => exact .multi f (x.node ρ) (xs.nodes ρ)

mutual

/-- Every printed expression is a phrase of its level, by induction on the expression. -/
theorem Expression.derives (x : Expression) : x.Derived ρ := by
  cases x with
  | number literal => exact fun start rest hq => .number rfl
  | read name => exact fun start rest hq => .read rfl hq.call
  | signed sign x =>
      intro start rest hq
      have hlevel : 7 ≤ 8 := Nat.le_succ 7
      exact sign_derives sign (operand_derives x.derives false hlevel hq)
  | binary op x y => exact binary_derives op x.derives y.derives
  | choice c x y => exact choice_derives c.derives x.derives y.derives
  | mathCall f x =>
      exact fun start rest hq => call_derives (.math f) (.math f (x.node ρ))
        (argument_derives x.derives) rest
  | multiCall f xs =>
      exact fun start rest hq => call_derives (.multi f) (xs.calls f) xs.derives rest
  | randomValue => exact fun start rest hq => .callEmpty rfl ⟨rfl, rfl⟩ rfl .randomValue
  | randomInteger x =>
      exact fun start rest hq => call_derives .randomInteger (.randomInteger (x.node ρ))
        (argument_derives x.derives) rest
  | randomBelow x =>
      exact fun start rest hq => call_derives .randomBelow (.randomBelow (x.node ρ))
        (argument_derives x.derives) rest

/-- Printed arguments are a phrase in front of the parenthesis that closes the call. -/
theorem Arguments.derives (xs : Arguments) (rest : List Token) :
    Derives ρ xs.depth .arguments (xs.words.map Word.token) (xs.nodes ρ)
      ((Word.mark .closeParen).token :: rest) := by
  cases xs with
  | last x => exact argument_derives x.derives rest
  | more x xs =>
      rw [Arguments.depth, Arguments.words, Arguments.nodes, List.map_append, List.map_cons]
      exact .more (operand_expression x.derives false (quiet_mark rfl 0 _)) rfl (xs.derives rest)

end

/-! ## How printed text begins -/

/-- A lexeme that is not a word of the language. -/
def Unreserved (l : Lexeme) : Prop := ∀ word ∈ reserved, l ≠ .name word

theorem Unreserved.not_isLet {l : Lexeme} (h : Unreserved l) : ¬ l.isLet := by
  intro hl
  exact h (Text.ofString "let") (by simp [reserved]) (of_decide_eq_true hl)

theorem Unreserved.not_isIf {l : Lexeme} (h : Unreserved l) : ¬ l.isIf := by
  intro hl
  exact h (Text.ofString "if") (by simp [reserved]) (of_decide_eq_true hl)

theorem Unreserved.not_isElse {l : Lexeme} (h : Unreserved l) : ¬ l.isElse := by
  intro hl
  exact h (Text.ofString "else") (by simp [reserved]) (of_decide_eq_true hl)

/-- A name that is not reserved is no word of the language. -/
theorem unreserved_name {name : Identifier} (h : name.units ∉ reserved) :
    Unreserved (.name name.units) := by
  intro word hword hname
  rw [Lexeme.name.inj hname] at h
  exact h hword

/-- No function is named by a word of the language. -/
theorem unreserved_callee (callee : Callee) : Unreserved (.name (calleeWord callee).units) := by
  refine unreserved_name ?_
  cases callee with
  | math f => cases f <;> decide
  | multi f => cases f <;> decide
  | _ => decide

/-- The words begin with one that is not a word of the language. -/
def Leads (ws : List Word) : Prop := ∃ w us, ws = w :: us ∧ Unreserved w.lexeme

/-- Words behind the first make no difference to it. -/
theorem Leads.append {ws : List Word} (h : Leads ws) (vs : List Word) : Leads (ws ++ vs) := by
  obtain ⟨w, us, rfl, hw⟩ := h
  exact ⟨w, us ++ vs, rfl, hw⟩

/-- At the start of a statement an operand leads with no word of the language, if its own words do
not: a variable that is named so stands in parentheses. -/
theorem operand_leads {x : Expression} (h : x.isReserved = false → Leads (x.words true))
    (level : Nat) : Leads (operand x true level x.words) := by
  rw [operand]
  by_cases hparens : x.needsParens true level = true
  · rw [if_pos hparens]
    exact ⟨_, _, rfl, fun _ _ => Lexeme.noConfusion⟩
  · rw [if_neg hparens]
    rw [Expression.needsParens, Bool.true_and, Bool.or_eq_true] at hparens
    exact h (Bool.eq_false_iff.mpr fun hx => hparens (.inr hx))

/-- An expression that is not reserved begins with no word of the language. -/
theorem Expression.leads (x : Expression) (h : x.isReserved = false) : Leads (x.words true) := by
  match x with
  | .number literal => exact ⟨_, _, rfl, fun _ _ => Lexeme.noConfusion⟩
  | .read name =>
      have hname : name.units ∉ reserved := by
        intro hmem
        exact Bool.false_ne_true (h.symm.trans (List.contains_iff_mem.mpr hmem))
      exact ⟨_, _, rfl, unreserved_name hname⟩
  | .signed sign x => exact ⟨_, _, rfl, fun _ _ => Lexeme.noConfusion⟩
  | .binary op x y =>
      rw [Expression.words]
      exact (operand_leads x.leads op.left).append _
  | .choice c x y =>
      rw [Expression.words]
      exact (operand_leads c.leads 1).append _
  | .mathCall f x => exact ⟨_, _, rfl, unreserved_callee (.math f)⟩
  | .multiCall f xs => exact ⟨_, _, rfl, unreserved_callee (.multi f)⟩
  | .randomValue => exact ⟨_, _, rfl, unreserved_callee .randomValue⟩
  | .randomInteger x => exact ⟨_, _, rfl, unreserved_callee .randomInteger⟩
  | .randomBelow x => exact ⟨_, _, rfl, unreserved_callee .randomBelow⟩

/-- No statement begins with the word that opens the other statement of a conditional. -/
theorem Statement.not_isElse (s : Statement) :
    ∃ w us, s.words = w :: us ∧ ¬ w.lexeme.isElse := by
  cases s with
  | evaluate x =>
      obtain ⟨w, us, hw, hlead⟩ := operand_leads x.leads 0
      exact ⟨w, us, hw, hlead.not_isElse⟩
  | ifThen c s => exact ⟨_, _, rfl, by decide⟩
  | ifElse c s t => exact ⟨_, _, rfl, by decide⟩
  | declare name => exact ⟨_, _, rfl, by decide⟩
  | declareAs name x => exact ⟨_, _, rfl, by decide⟩
  | assign op target x => exact ⟨_, _, rfl, (unreserved_name target.plain).not_isElse⟩
  | sequence ss => exact ⟨_, _, rfl, by decide⟩
  | empty => exact ⟨_, _, rfl, by decide⟩

/-- Printed statements do not open another statement of a conditional. -/
theorem Statements.not_isElse (ss : Statements) :
    ∃ w us, ss.words = w :: us ∧ ¬ w.lexeme.isElse := by
  cases ss with
  | two s t =>
      obtain ⟨w, us, hw, helse⟩ := s.not_isElse
      exact ⟨w, us ++ .mark .semicolon :: t.words, by rw [Statements.words, hw]; rfl, helse⟩
  | more s ss =>
      obtain ⟨w, us, hw, helse⟩ := s.not_isElse
      exact ⟨w, us ++ .mark .semicolon :: ss.words, by rw [Statements.words, hw]; rfl, helse⟩

/-! ## Statements -/

/-- A closing brace goes on with nothing. -/
theorem detached_closeBrace (rest : List Token) :
    Detached ((Word.mark .closeBrace).token :: rest) := by
  refine detached_of_mark rfl (by decide) (by decide) ?_
  cases rest with
  | nil => exact Bool.false_ne_true
  | cons t rest =>
      rintro (hc | ⟨hc, -⟩)
      · exact Bool.false_ne_true hc
      · exact Mark.noConfusion (Lexeme.mark.inj hc)

/-- A semicolon before a statement ends the one before. -/
theorem detached_semicolon {ws : List Word} (h : ∃ w us, ws = w :: us ∧ ¬ w.lexeme.isElse)
    (rest : List Token) :
    Detached ((Word.mark .semicolon).token :: (ws.map Word.token ++ rest)) := by
  obtain ⟨w, us, rfl, helse⟩ := h
  refine detached_of_mark rfl (by decide) (by decide) ?_
  rintro (hc | ⟨-, hc⟩)
  · exact Bool.false_ne_true hc
  · exact helse hc

/-- An expression is a statement of its own where nothing goes on with it. -/
theorem evaluate_derives (x : Expression) {rest : List Token} (hrest : Detached rest) :
    Derives ρ (operandDepth x true 0 x.depth + 1) .statement
      ((operand x true 0 x.words).map Word.token) [x.node ρ] rest := by
  have hvalue := operand_expression (ρ := ρ) x.derives true (.of_detached hrest)
  refine .evaluate hvalue ?_
  obtain ⟨w, us, hw, hlead⟩ := operand_leads x.leads 0
  rw [hw] at hvalue ⊢
  rintro (hl | hi | ⟨⟨name, hname⟩, hc⟩)
  · exact hlead.not_isLet hl
  · exact hlead.not_isIf hi
  · exact hvalue.not_continuesAssignment trivial hrest.not_continuesAssignment rfl hname hc

/-- A printed assignment is a statement, whatever the operator. -/
theorem assign_derives (op : AssignmentOp) (target : Target) (x : Expression) {rest : List Token}
    (hrest : Detached rest) :
    Derives ρ (operandDepth x false 0 x.depth + 1) .statement
      ((.name target.toIdentifier :: .operator (assignmentOperator op)
        :: operand x false 0 x.words : List Word).map Word.token)
      [.assign op target.units (x.node ρ)] rest := by
  have hvalue := operand_expression (ρ := ρ) x.derives false (.of_detached hrest)
  have hkind : Assigns (assignmentOperator op) op := by
    cases op
    · exact .set
    · exact .add
    · exact .subtract
    · exact .multiply
    · exact .divide
  have hplain := unreserved_name target.plain
  exact .assign rfl ⟨hplain.not_isLet, hplain.not_isIf⟩ hkind ⟨rfl, rfl⟩ hvalue

/-- A statement is a branch of a conditional whatever follows, since braces stand around it. -/
theorem branch_derives {s : Statement}
    (h : ∀ rest, (s.isBraced = false → Detached rest) →
      Derives ρ s.depth .statement (s.words.map Word.token) [s.node ρ] rest) (rest : List Token) :
    Derives ρ (branchDepth s s.depth) .statement ((branch s s.words).map Word.token) [s.node ρ]
      rest := by
  rw [branchDepth, branch]
  by_cases hbraced : s.isBraced = true
  · rw [if_pos hbraced, if_pos hbraced]
    exact h rest fun hnot => absurd hbraced (Bool.eq_false_iff.mp hnot)
  · -- a block of one statement is that statement, one level further in
    rw [if_neg hbraced, if_neg hbraced, braces, List.map_cons, List.map_append]
    have hone := h ((Word.mark .closeBrace).token :: rest) fun _ => detached_closeBrace rest
    exact .block (p := (Word.mark .openBrace).token) rfl hone.single rfl

/-- Two statements or more are not collapsed. -/
theorem Statements.collapse_nodes (ss : Statements) (whenEmpty : Node) :
    collapse whenEmpty (ss.nodes ρ) = .sequence (ss.nodes ρ) := by
  cases ss with
  | two s t => rfl
  | more s ss => cases ss <;> rfl

mutual

/-- Every printed statement is a phrase; one without braces needs to be detached from what follows.
-/
theorem Statement.derives (s : Statement) (rest : List Token)
    (h : s.isBraced = false → Detached rest) :
    Derives ρ s.depth .statement (s.words.map Word.token) [s.node ρ] rest := by
  cases s with
  | evaluate x => exact evaluate_derives x (h rfl)
  | ifThen c s =>
      rw [Statement.depth, Statement.words, Statement.node, parens]
      simp only [List.map_cons, List.map_append, List.cons_append, List.append_assoc,
        List.nil_append]
      exact .ifThen rfl rfl (operand_expression c.derives false (quiet_mark rfl 0 _)) rfl
        (branch_derives s.derives rest) (h rfl).other
  | ifElse c s t =>
      rw [Statement.depth, Statement.words, Statement.node, parens]
      simp only [List.map_cons, List.map_append, List.cons_append, List.append_assoc,
        List.nil_append]
      -- no separator is written: the brace of the first branch stands right before the word
      have hnothing : Separator [] := trivial
      exact .ifElse rfl rfl (operand_expression c.derives false (quiet_mark rfl 0 _))
        rfl (branch_derives s.derives _) hnothing rfl (branch_derives t.derives rest)
  | declare name => exact .declare rfl rfl ((h rfl).operator _)
  | declareAs name x =>
      exact .declareAs rfl rfl ⟨rfl, rfl⟩ (operand_expression x.derives false (.of_detached (h rfl)))
  | assign op target x => exact assign_derives op target x (h rfl)
  | sequence ss =>
      rw [Statement.depth, Statement.words, Statement.node, braces, List.map_cons, List.map_append,
        ← ss.collapse_nodes .empty]
      exact .block rfl (ss.derives _ (detached_closeBrace rest)) rfl
  | empty => exact .block rfl .none rfl

/-- Printed statements are a list of statements, each detached from the next by its semicolon. -/
theorem Statements.derives (ss : Statements) (rest : List Token) (h : Detached rest) :
    Derives ρ ss.depth .statements (ss.words.map Word.token) (ss.nodes ρ) rest := by
  cases ss with
  | two s t =>
      rw [Statements.depth, Statements.words, Statements.nodes, List.map_append, List.map_cons]
      have hlast := t.derives rest fun _ => h
      exact .cons (s.derives _ fun _ => detached_semicolon t.not_isElse rest)
        (.semicolon rfl hlast.single)
  | more s ss =>
      rw [Statements.depth, Statements.words, Statements.nodes, List.map_append, List.map_cons]
      exact .cons (s.derives _ fun _ => detached_semicolon ss.not_isElse rest)
        (.semicolon rfl (ss.derives rest h))

end

/-- The words of a whole text are a program with the tree that was printed. -/
theorem Statement.program_derives (s : Statement) :
    Program ρ s.programDepth (s.program.map Word.token) (s.node ρ) := by
  have hone : Program ρ (s.depth + 1) (s.words.map Word.token) (s.node ρ) :=
    ⟨[s.node ρ], (s.derives [] fun _ => detached_nil).single, rfl⟩
  cases s with
  | sequence ss => exact ⟨ss.nodes ρ, ss.derives [] detached_nil, (ss.collapse_nodes _).symm⟩
  | _ => exact hone

/-- The text of a tree is accepted with that tree, exactly if it nests within the limit. -/
theorem Statement.parse_print_iff (s : Statement) :
    (∃ f, Formula.parse ρ s.print = .ok f ∧ f.root = s.node ρ) ↔ s.programDepth ≤ nestingLimit := by
  obtain ⟨tokens, htokens, hphrase⟩ := tokenize_write s.program
  have hprogram : Program ρ s.programDepth (Formula.phrase tokens) (s.node ρ) := by
    rw [hphrase]
    exact s.program_derives
  exact Formula.parseWithin_isOk_iff htokens hprogram

end Formulary.Printing
