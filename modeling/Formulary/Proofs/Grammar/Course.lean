import Formulary.Proofs.Grammar.Progress

/-!
# What a production asks of the level below

A production takes the productions that it nests from a level, one after the other, and ends with
the first refusal that it gets. This much can be said about all of them at once, without saying what
they read, and it is all that counts for how deep they nest and for how far they get.

- `Opening` names the four productions of a level, and `Opening.reach` bounds how many levels can be
  opened below one of them.
- `Course m Q f` says that the reading `f` is such a course of nested productions, each of them
  within the reach `m`, and that its result has the property `Q`. `Course.bind` joins two of them.
- `Rule` names all productions of the grammar, and `Rule.course` says that each of them is a course
  that has stepped over a token when it succeeds. `Opening.course` says so, with the closest reach,
  about the four productions that a level has from the level below.
- `Rule.progresses` and `Level.advances_ofBudget` are what follows about progress: a production that
  succeeds has stepped over a token at least, and never over the end of the text.
-/

namespace Formulary

/-! ## Productions of a level -/

/-- The productions that open a level of nesting. -/
inductive Opening where
  /-- A statement. -/
  | statement
  /-- An expression. -/
  | expression
  /-- The right side of a power. -/
  | exponent
  /-- The operand of a sign. -/
  | unary
  deriving DecidableEq, Repr

/-- The production of a level that bears a name. -/
def Level.read (level : Level) : Opening → Production
  | .statement => level.statement
  | .expression => level.expression
  | .exponent => level.exponent
  | .unary => level.unary

/-- A level is its four productions. -/
theorem Level.eq_of_read {level other : Level} (h : ∀ k c, level.read k c = other.read k c) :
    level = other := by
  obtain ⟨statement, expression, exponent, unary⟩ := level
  obtain ⟨statement', expression', exponent', unary'⟩ := other
  obtain rfl : statement = statement' := funext (h .statement)
  obtain rfl : expression = expression' := funext (h .expression)
  obtain rfl : exponent = exponent' := funext (h .exponent)
  obtain rfl : unary = unary' := funext (h .unary)
  rfl

/-- How many levels can be open below a production at most. All of them nest behind a token, except
that a statement may be an expression. -/
def Opening.reach (k : Opening) (c : Cursor) : Nat :=
  match k with
  | .statement => 2 * c.rest.length + 1
  | _ => 2 * c.rest.length

namespace Grammar

/-! ## Courses -/

/-- The result of a reading that has stepped over a token. -/
def Behind {α : Type} (c : Cursor) (r : α × Cursor) : Prop := c.Passes r.2

/-- The result of a reading that may have stepped over none. -/
def From {α : Type} (c : Cursor) (r : α × Cursor) : Prop := c.Reaches r.2

/-- A reading that takes productions from a level one after the other, each of them within the reach
`m`, and ends with the first refusal. If none of them refuses, and each steps over a token, then it
refuses for no excess of nesting, or its result has the property `Q`. -/
inductive Course (m : Nat) {α : Type} (Q : α → Prop) : (Level → Except Failure α) → Prop where
  | ok {a : α} (result : Q a) : Course m Q (fun _ => .ok a)
  | error {e : Failure} (fault : ∀ limit, e.fault ≠ .tooDeep limit) : Course m Q (fun _ => .error e)
  | nest {k : Opening} {c : Cursor} {f : Node × Cursor → Level → Except Failure α}
      (reach : k.reach c < m) (next : ∀ r, Behind c r → Course m Q (f r)) :
      Course m Q (fun level => level.read k c >>= fun r => f r level)

namespace Course

variable {m : Nat} {α β : Type} {Q : α → Prop} {R : β → Prop}

/-- The step of a course that takes an expression. -/
theorem expression {c : Cursor} {f : Node × Cursor → Level → Except Failure α}
    (reach : 2 * c.rest.length < m) (next : ∀ r, Behind c r → Course m Q (f r)) :
    Course m Q (fun level => level.expression c >>= fun r => f r level) :=
  nest (k := .expression) reach next

/-- The step of a course that takes a statement. -/
theorem statement {c : Cursor} {f : Node × Cursor → Level → Except Failure α}
    (reach : 2 * c.rest.length + 1 < m) (next : ∀ r, Behind c r → Course m Q (f r)) :
    Course m Q (fun level => level.statement c >>= fun r => f r level) :=
  nest (k := .statement) reach next

/-- A production that is taken from the level and nothing else. -/
theorem single {k : Opening} {c : Cursor} {Q : Node × Cursor → Prop} (reach : k.reach c < m)
    (result : ∀ r, Behind c r → Q r) : Course m Q (fun level => level.read k c) := by
  have hnest : Course m Q (fun level => level.read k c >>= fun r => .ok r) :=
    nest (f := fun r _ => .ok r) reach fun r hr => ok (result r hr)
  have heq : (fun level : Level => level.read k c >>= fun r => .ok r)
      = fun level => level.read k c := by
    funext level
    exact bind_pure _
  rwa [heq] at hnest

/-- One course after the other is a course. -/
theorem bind {f : β → Level → Except Failure α} {p : Level → Except Failure β}
    (hp : Course m R p) (hf : ∀ b, R b → Course m Q (f b)) :
    Course m Q (fun level => p level >>= fun b => f b level) := by
  induction hp with
  | ok result => exact hf _ result
  | error fault => exact error fault
  | @nest k c g reach _ ih =>
      have heq : (fun level : Level =>
            (level.read k c >>= fun r => g r level) >>= fun b => f b level)
          = fun level => level.read k c >>= fun r => g r level >>= fun b => f b level := by
        funext level
        exact bind_assoc _ _ _
      rw [heq]
      exact nest (f := fun r level => g r level >>= fun b => f b level) reach ih

/-- A course may branch on what has been read. -/
theorem ite {p q : Level → Except Failure α} {P : Prop} [Decidable P] (hp : P → Course m Q p)
    (hq : ¬ P → Course m Q q) : Course m Q (fun level => if P then p level else q level) := by
  by_cases h : P
  · simp only [if_pos h]
    exact hp h
  · simp only [if_neg h]
    exact hq h

/-- The property of the result may be weakened. -/
theorem weaken {Q' : α → Prop} {f : Level → Except Failure α} (h : Course m Q f)
    (himp : ∀ a, Q a → Q' a) : Course m Q' f := by
  induction h with
  | ok result => exact ok (himp _ result)
  | error fault => exact error fault
  | nest reach _ ih => exact nest reach ih

end Course

end Grammar

/-! ## Courses of expressions -/

namespace Grammar

variable {ρ : ProviderId} {m : Nat}

/-- A mark that has to come next is stepped over, or refused for another cause than nesting. -/
theorem expect_course {c : Cursor} {mark : Mark} {fault : Fault}
    (hfault : ∀ limit, fault ≠ .tooDeep limit) :
    Course m c.Passes (fun _ => c.expect mark fault) := by
  rw [Cursor.expect]
  by_cases h : c.lexeme = .mark mark
  · rw [if_pos h]
    exact .ok (Cursor.passes_advance h Lexeme.noConfusion)
  · rw [if_neg h]
    exact .error hfault

/-- The loop over arguments takes expressions from the level, one behind each comma. -/
theorem arguments_course (fuel : Nat) {c : Cursor} (hc : 2 * c.rest.length < m) :
    Course m (From c) (fun level => arguments level.expression fuel c) := by
  induction fuel generalizing c with
  | zero => exact .ok (.refl c)
  | succ fuel ih =>
      refine .expression hc ?_
      rintro ⟨first, c₁⟩ hfirst
      have hcomma : c.Reaches c₁.advance := hfirst.reaches.trans c₁.reaches_advance
      have hle := hcomma.length_le
      refine .ite (fun _ => ?_) (fun _ => .ok hfirst.reaches)
      refine .bind (ih (by omega)) ?_
      rintro ⟨others, c₂⟩ hothers
      exact .ok (hcomma.trans hothers)

theorem argumentList_course {c : Cursor} (hc : 2 * c.rest.length < m) :
    Course m (From c) (fun level => argumentList level c) :=
  .ite (fun _ => .ok (.refl c)) fun _ => arguments_course _ hc

/-- A call takes its arguments from the level; its name and arity are judged behind them. -/
theorem call_course {name : Text} {index : Nat} {c : Cursor} (hc : 2 * c.rest.length < m) :
    Course m (Behind c) (fun level => call ρ level name index c) := by
  refine .bind (argumentList_course hc) ?_
  rintro ⟨nodes, c₁⟩ hargs
  refine .bind (expect_course fun _ => Fault.noConfusion) fun c₂ hclose => ?_
  cases Callee.ofName? name with
  | none => exact .error fun _ => Fault.noConfusion
  | some callee =>
      dsimp only
      cases callee.call? ρ nodes with
      | none => exact .error fun _ => Fault.noConfusion
      | some node => exact .ok (hargs.passes hclose)

/-- An operand takes from the level what stands in its parentheses, all of it behind a token. -/
theorem primary_course {c : Cursor} (hc : 2 * c.rest.length ≤ m) :
    Course m (Behind c) (fun level => primary ρ level c) := by
  unfold primary
  cases hlexeme : c.lexeme with
  | number digits => exact .ok (Cursor.passes_advance hlexeme Lexeme.noConfusion)
  | name name =>
      have hname : c.Passes c.advance := Cursor.passes_advance hlexeme Lexeme.noConfusion
      have hparen : c.Passes c.advance.advance := hname.reach c.advance.reaches_advance
      have hlt := hparen.length_lt
      refine .ite (fun _ => ?_) (fun _ => .ok (hname.reach (c.advance.reaches_use name)))
      exact (call_course (by omega)).weaken fun r hr => hparen.trans hr
  | mark mark =>
      cases mark with
      | openParen =>
          have hopen : c.Passes c.advance := Cursor.passes_advance hlexeme Lexeme.noConfusion
          have hlt := hopen.length_lt
          refine .expression (by omega) ?_
          rintro ⟨node, c₁⟩ hbody
          refine .bind (expect_course fun _ => Fault.noConfusion) fun c₂ hclose => ?_
          exact .ok (hopen.trans (hbody.trans hclose))
      | _ => exact .error fun _ => Fault.noConfusion
  | operator op => exact .error fun _ => Fault.noConfusion
  | endOfText => exact .error fun _ => Fault.noConfusion

/-- The operand of a sign stands behind a token. -/
theorem signed_course {c : Cursor} {l : Lexeme} (hlexeme : c.lexeme = l) (hl : l ≠ .endOfText)
    (hc : 2 * c.rest.length ≤ m) (build : Node → Node) :
    Course m (Behind c) (fun level => level.unary c.advance >>= fun r =>
      .ok (build r.1, r.2)) := by
  have hsign : c.Passes c.advance := Cursor.passes_advance hlexeme hl
  have hlt := hsign.length_lt
  have hreach : 2 * c.advance.rest.length < m := by omega
  exact .nest (k := .unary) hreach fun r hr => .ok (hsign.trans hr)

/-- The operand of a sign is taken from the level, behind the sign. -/
theorem unary_course {c : Cursor} (hc : 2 * c.rest.length ≤ m) :
    Course m (Behind c) (fun level => unary ρ level c) := by
  unfold unary
  cases hlexeme : c.lexeme with
  | operator op =>
      cases op with
      | minus => exact signed_course hlexeme Lexeme.noConfusion hc .negate
      | not => exact signed_course hlexeme Lexeme.noConfusion hc .not
      | plus =>
          have hsign : c.Passes c.advance := Cursor.passes_advance hlexeme Lexeme.noConfusion
          have hlt := hsign.length_lt
          have hreach : 2 * c.advance.rest.length < m := by omega
          exact .single (k := .unary) hreach fun r hr => hsign.trans hr
      | _ => exact primary_course hc
  | _ => exact primary_course hc

/-- The right side of a power is taken from the level, behind the caret. -/
theorem exponent_course {c : Cursor} (hc : 2 * c.rest.length ≤ m) :
    Course m (Behind c) (fun level => exponent ρ level c) := by
  refine .bind (unary_course hc) ?_
  rintro ⟨base, c₁⟩ hbase
  refine .ite (fun _ => ?_) (fun _ => .ok hbase)
  have hcaret : c.Passes c₁.advance := Cursor.Passes.reach hbase c₁.reaches_advance
  have hlt := hcaret.length_lt
  have hreach : 2 * c₁.advance.rest.length < m := by omega
  exact .nest (k := .exponent) hreach fun r hr => .ok (hcaret.trans hr)

section Chains

variable {operand : Level → Production} {build? : Operator → Option (Node → Node → Node)}

/-- The loop over operands is a course if each operand is one. -/
theorem chain_course
    (hoperand : ∀ c : Cursor, 2 * c.rest.length ≤ m → Course m (Behind c) (operand · c))
    (fuel : Nat) {left : Node} {c : Cursor} (hc : 2 * c.rest.length ≤ m) :
    Course m (From c) (fun level => chain (operand level) build? fuel left c) := by
  induction fuel generalizing left c with
  | zero => exact .ok (.refl c)
  | succ fuel ih =>
      unfold chain
      cases c.token.joining?.bind build? with
      | none => exact .ok (.refl c)
      | some build =>
          have hle := c.reaches_advance.length_le
          refine .bind (hoperand c.advance (by omega)) ?_
          rintro ⟨right, c₁⟩ hright
          have hreaches : c.Reaches c₁ := c.reaches_advance.trans hright.reaches
          have hle₁ := hreaches.length_le
          exact (ih (by omega)).weaken fun r hr => hreaches.trans hr

/-- Operands that group to the left take a course if their operand does. -/
theorem leftChain_course
    (hoperand : ∀ c : Cursor, 2 * c.rest.length ≤ m → Course m (Behind c) (operand · c))
    (c : Cursor) (hc : 2 * c.rest.length ≤ m) :
    Course m (Behind c) (fun level => leftChain (operand level) build? c) := by
  refine .bind (hoperand c hc) ?_
  rintro ⟨left, c₁⟩ hleft
  have hlt := Cursor.Passes.length_lt hleft
  dsimp only at hlt
  exact (chain_course hoperand _ (by omega)).weaken fun r hr => Cursor.Passes.reach hleft hr

end Chains

theorem multiplicative_course (c : Cursor) (hc : 2 * c.rest.length ≤ m) :
    Course m (Behind c) (fun level => multiplicative ρ level c) :=
  leftChain_course (fun _ => exponent_course) c hc

theorem additive_course (c : Cursor) (hc : 2 * c.rest.length ≤ m) :
    Course m (Behind c) (fun level => additive ρ level c) :=
  leftChain_course multiplicative_course c hc

/-- A comparison is the course of one sum, or of two. -/
theorem comparison_course (c : Cursor) (hc : 2 * c.rest.length ≤ m) :
    Course m (Behind c) (fun level => comparison ρ level c) := by
  refine .bind (additive_course c hc) ?_
  rintro ⟨left, c₁⟩ hleft
  dsimp only
  cases c₁.token.joining?.bind Operator.comparison? with
  | none => exact .ok hleft
  | some build =>
      have hsign : c.Passes c₁.advance := Cursor.Passes.reach hleft c₁.reaches_advance
      have hlt := hsign.length_lt
      refine .bind (additive_course c₁.advance (by omega)) ?_
      rintro ⟨right, c₂⟩ hright
      exact .ok (hsign.trans hright)

theorem conjunction_course (c : Cursor) (hc : 2 * c.rest.length ≤ m) :
    Course m (Behind c) (fun level => conjunction ρ level c) :=
  leftChain_course comparison_course c hc

theorem disjunction_course (c : Cursor) (hc : 2 * c.rest.length ≤ m) :
    Course m (Behind c) (fun level => disjunction ρ level c) :=
  leftChain_course conjunction_course c hc

/-- A choice takes its second value from the level, behind the colon. -/
theorem choice_course {c : Cursor} (hc : 2 * c.rest.length ≤ m) :
    Course m (Behind c) (fun level => choice ρ level c) := by
  refine .bind (disjunction_course c hc) ?_
  rintro ⟨condition, c₁⟩ hcondition
  refine .ite (fun _ => ?_) (fun _ => .ok hcondition)
  have hquestion : c.Passes c₁.advance := Cursor.Passes.reach hcondition c₁.reaches_advance
  have hlt := hquestion.length_lt
  refine .bind (disjunction_course c₁.advance (by omega)) ?_
  rintro ⟨whenTrue, c₂⟩ hleft
  refine .bind (expect_course fun _ => Fault.noConfusion) fun c₃ hcolon => ?_
  have hpasses : c.Passes c₃ := hquestion.trans (Cursor.Passes.trans hleft hcolon)
  have hlt₃ := hpasses.length_lt
  exact .expression (by omega) fun r hr => .ok (hpasses.trans hr)

/-! ## Courses of statements -/

/-- The loop over statements takes each of them from the level. -/
theorem statements_course {ends : Lexeme → Bool} (fuel : Nat) {c : Cursor}
    (hc : 2 * c.rest.length + 1 < m) :
    Course m (From c) (fun level => statements level.statement ends fuel c) := by
  induction fuel generalizing c with
  | zero => exact .ok (.refl c)
  | succ fuel ih =>
      refine .ite (fun _ => .ok (.refl c)) fun _ => ?_
      refine .statement hc ?_
      rintro ⟨first, c₁⟩ hfirst
      have hskip : c.Reaches c₁.skipSemicolons := hfirst.reaches.trans c₁.reaches_skipSemicolons
      have hle := hskip.length_le
      refine .bind (ih (by omega)) ?_
      rintro ⟨others, c₂⟩ hothers
      exact .ok (hskip.trans hothers)

/-- Semicolons in front of a list of statements are no part of its course. -/
theorem statementList_course {ends : Lexeme → Bool} {c : Cursor}
    (hc : 2 * c.rest.length + 1 < m) :
    Course m (From c) (fun level => statementList level ends c) := by
  have hle := c.reaches_skipSemicolons.length_le
  exact (statements_course _ (by omega)).weaken fun r hr => c.reaches_skipSemicolons.trans hr

/-- A declaration takes its first value from the level, behind the sign. -/
theorem declaration_course {c : Cursor} (hc : 2 * c.rest.length ≤ m) :
    Course m (Behind c) (fun level => declaration level c) := by
  unfold declaration
  dsimp only
  cases hlexeme : c.advance.lexeme with
  | name name =>
      -- whether or not the word before it was stepped over, the name is
      have hname : c.Passes (c.advance.advance.bind name) :=
        c.reaches_advance.passes
          ((Cursor.passes_advance hlexeme Lexeme.noConfusion).reach (Cursor.reaches_bind _ name))
      have hsign := hname.reach (c.advance.advance.bind name).reaches_advance
      have hlt := hsign.length_lt
      refine .ite (fun _ => ?_) (fun _ => .ok hname)
      exact .expression (by omega) fun r hr => .ok (hsign.trans hr)
  | _ => exact .error fun _ => Fault.noConfusion

/-- A conditional takes its condition and its statements from the level, behind its word. -/
theorem conditional_course {c : Cursor} (hc : 2 * c.rest.length ≤ m) :
    Course m (Behind c) (fun level => conditional level c) := by
  refine .bind (expect_course fun _ => Fault.noConfusion) fun c₁ hopen => ?_
  have htest : c.Passes c₁ := c.reaches_advance.passes hopen
  have hlt₁ := htest.length_lt
  refine .expression (by omega) ?_
  rintro ⟨condition, c₂⟩ hcondition
  refine .bind (expect_course fun _ => Fault.noConfusion) fun c₃ hclose => ?_
  have hbody : c.Passes c₃ := htest.trans (hcondition.trans hclose)
  have hlt₃ := hbody.length_lt
  refine .statement (by omega) ?_
  rintro ⟨body, c₄⟩ hbehind
  have hskip : c.Passes (skipBeforeElse c₄) := (hbody.trans hbehind).reach (reaches_skipBeforeElse c₄)
  refine .ite (fun _ => ?_) (fun _ => .ok hskip)
  have helse : c.Passes (skipBeforeElse c₄).advance := hskip.reach (Cursor.reaches_advance _)
  have hlt := helse.length_lt
  exact .statement (by omega) fun r hr => .ok (helse.trans hr)

/-- A block takes its statements from the level, behind its brace. -/
theorem block_course {c : Cursor} (hc : 2 * c.advance.rest.length + 1 < m) :
    Course m (Behind c) (fun level => block level c) := by
  refine .bind (statementList_course hc) ?_
  rintro ⟨nodes, c₁⟩ hbody
  refine .bind (expect_course fun _ => Fault.noConfusion) fun c₂ hclose => ?_
  exact .ok ((c.reaches_advance.trans hbody).passes hclose)

/-- An assignment takes its value from the level, and a statement that is an expression takes this.
-/
theorem assignment_course {c : Cursor} (hc : 2 * c.rest.length < m) :
    Course m (Behind c) (fun level => assignment level c) := by
  have hvalue : Course m (Behind c) (fun level => level.expression c) :=
    .single (k := .expression) hc fun r hr => hr
  unfold assignment
  cases c.lexeme with
  | name name =>
      cases c.following.joining?.bind Operator.assignment? with
      | none => exact hvalue
      | some op =>
          have hsign : c.Reaches c.advance.advance := c.reaches_advance.trans c.advance.reaches_advance
          have hle := hsign.length_le
          exact .expression (by omega) fun r hr =>
            .ok ((hsign.passes hr).reach (r.2.reaches_bind name))
  | _ => exact hvalue

/-- A statement is the course of its form, which its first token tells. -/
theorem statement_course {c : Cursor} (hc : 2 * c.rest.length < m) :
    Course m (Behind c) (fun level => statement level c) := by
  refine .ite (fun _ => declaration_course (Nat.le_of_lt hc)) fun _ => ?_
  refine .ite (fun _ => conditional_course (Nat.le_of_lt hc)) fun _ => ?_
  refine .ite (fun hbrace => block_course ?_) fun _ => assignment_course hc
  have hlt := (Cursor.passes_advance hbrace Lexeme.noConfusion).length_lt
  omega

/-! ## All productions -/

/-- The productions of the grammar. A call is read from behind its opening parenthesis. -/
inductive Rule where
  | statement
  | declaration
  | conditional
  | block
  | assignment
  | expression
  | disjunction
  | conjunction
  | comparison
  | additive
  | multiplicative
  | exponent
  | unary
  | primary
  | call (name : Text) (index : Nat)

/-- The production of a rule, from the level that it may nest into. -/
def Rule.read (ρ : ProviderId) (inner : Level) : Rule → Production
  | .statement => Grammar.statement inner
  | .declaration => Grammar.declaration inner
  | .conditional => Grammar.conditional inner
  | .block => Grammar.block inner
  | .assignment => Grammar.assignment inner
  | .expression => Grammar.choice ρ inner
  | .disjunction => Grammar.disjunction ρ inner
  | .conjunction => Grammar.conjunction ρ inner
  | .comparison => Grammar.comparison ρ inner
  | .additive => Grammar.additive ρ inner
  | .multiplicative => Grammar.multiplicative ρ inner
  | .exponent => Grammar.exponent ρ inner
  | .unary => Grammar.unary ρ inner
  | .primary => Grammar.primary ρ inner
  | .call name index => Grammar.call ρ inner name index

/-- Every production is a course. -/
theorem Rule.course (rule : Rule) (c : Cursor) :
    Course (2 * c.rest.length + 2) (Behind c) (fun level => rule.read ρ level c) := by
  have hlt : 2 * c.rest.length < 2 * c.rest.length + 2 := by omega
  have hle := Nat.le_of_lt hlt
  cases rule with
  | statement => exact statement_course hlt
  | declaration => exact declaration_course hle
  | conditional => exact conditional_course hle
  | block =>
      have hadvance := c.reaches_advance.length_le
      exact block_course (by omega)
  | assignment => exact assignment_course hlt
  | expression => exact choice_course hle
  | disjunction => exact disjunction_course c hle
  | conjunction => exact conjunction_course c hle
  | comparison => exact comparison_course c hle
  | additive => exact additive_course c hle
  | multiplicative => exact multiplicative_course c hle
  | exponent => exact exponent_course hle
  | unary => exact unary_course hle
  | primary => exact primary_course hle
  | call name index => exact call_course hlt

/-- A production that succeeds has stepped over a token. -/
def Progresses (p : Production) : Prop := ∀ {c r}, p c = .ok r → Behind c r

end Grammar

/-! ## Levels -/

open Grammar

variable {ρ : ProviderId}

/-- The productions that a level has from the level below are courses within their reach. -/
theorem Opening.course (k : Opening) (c : Cursor) :
    Course (k.reach c) (Behind c) (fun level => (level.deepen ρ).read k c) := by
  cases k with
  | statement => exact statement_course (Nat.lt_succ_self _)
  | expression => exact choice_course (Nat.le_refl _)
  | exponent => exact exponent_course (Nat.le_refl _)
  | unary => exact unary_course (Nat.le_refl _)

/-- The productions of a level make progress. -/
def Level.Advances (level : Level) : Prop := ∀ k, Progresses (level.read k)

/-- A course of productions that make progress comes to what it says. -/
theorem Grammar.Course.result {m : Nat} {α : Type} {Q : α → Prop} {f : Level → Except Failure α}
    {level : Level} (h : Course m Q f) (hlevel : level.Advances) {a : α} (ha : f level = .ok a) :
    Q a := by
  induction h with
  | ok result =>
      cases ha
      exact result
  | error => cases ha
  | nest _ _ ih =>
      obtain ⟨r, hr, ha⟩ := bind_eq_ok_iff.mp ha
      exact ih r (hlevel _ hr) ha

/-- Every production makes progress if those that it nests do. -/
theorem Grammar.Rule.progresses (rule : Rule) {inner : Level} (hinner : inner.Advances) :
    Progresses (rule.read ρ inner) :=
  fun {c _} h => (rule.course c).result hinner h

/-- Whatever the budget, the productions of a level make progress. -/
theorem Level.advances_ofBudget (limit n : Nat) : (ofBudget ρ limit n).Advances := by
  induction n with
  | zero =>
      intro k c r h
      cases k <;> cases h
  | succ n ih =>
      intro k c r h
      exact (k.course c).result ih h

end Formulary
