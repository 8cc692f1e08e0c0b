import Formulary.Proofs.Grammar.Course
import Formulary.Proofs.Grammar.Program
import Formulary.Proofs.Grammar.Shape

/-!
# Loops of the grammar

Statements, operators that group to the left and arguments are read by loops that go on until a
token says otherwise. A round that goes on has stepped over a token and stays in front of the end of
the text, so that every loop ends, whatever the tokens are, and the bound on the rounds of the reader
is never met.

- `Grammar.Loop` is a loop without a bound, told by what one round does. It ends if its rounds make
  progress, and `Grammar.Loop.endsWithin_bounded` says that a bounded reader comes to the same.
- `Grammar.statementRound`, `Grammar.chainRound` and `Grammar.argumentRound` are the rounds of the
  three loops; `Grammar.statements_fuel` and the two theorems like it say that their bounds do not
  show.
- `Grammar.Derives.countStatements_le` bounds the statements of a text, those inside of statements
  included.
- `Grammar.reading_progresses` is the statement about all productions and loops.
-/

namespace Formulary

/-! ## How many statements -/

namespace Node

mutual

/-- How many statements a tree is, itself and those that it runs. -/
def statementCount : Node → Nat
  | .ifThen _ body => body.statementCount + 1
  | .ifElse _ body otherwise => body.statementCount + otherwise.statementCount + 1
  | .sequence statements => countStatements statements + 1
  | _ => 1

/-- How many statements some trees are. -/
def countStatements : List Node → Nat
  | [] => 0
  | node :: nodes => node.statementCount + countStatements nodes

end

theorem countStatements_singleton (node : Node) :
    countStatements [node] = node.statementCount := rfl

theorem IsExpression.statementCount_eq {x : Node} (h : x.IsExpression) : x.statementCount = 1 := by
  cases h <;> rfl

/-- Each tree counts for one statement at least. -/
theorem length_le_countStatements (nodes : List Node) : nodes.length ≤ countStatements nodes := by
  have hone : ∀ node : Node, 1 ≤ node.statementCount := by
    intro node
    cases node <;> exact Nat.le_add_left 1 _
  induction nodes with
  | nil => exact Nat.le_refl 0
  | cons node nodes ih =>
      have hnode := hone node
      rw [List.length_cons, countStatements]
      omega

/-- Statements in braces count for themselves and the block. -/
theorem statementCount_collapse_le (nodes : List Node) :
    (Grammar.collapse .empty nodes).statementCount ≤ countStatements nodes + 1 := by
  rcases nodes with _ | ⟨node, _ | ⟨next, others⟩⟩
  · exact Nat.le_refl 1
  · show node.statementCount ≤ node.statementCount + 0 + 1
    omega
  · exact Nat.le_refl _

end Node

namespace Grammar

open Node (countStatements)

/-- No more statements stand in a list than tokens do, those inside of statements included. -/
theorem Derives.countStatements_le {ρ : ProviderId} {d : Nat} {k : Category} {ts rest : List Token}
    {nodes : List Node} (h : Derives ρ d k ts nodes rest) (hk : ¬ k.IsExpression) :
    countStatements nodes ≤ ts.length := by
  induction h with
  | none => exact Nat.le_refl 0
  | semicolon _ _ ih => exact Nat.le_succ_of_le (ih hk)
  | cons _ _ ih ihs =>
      have hfirst := ih id
      have hothers := ihs hk
      rw [Node.countStatements_singleton] at hfirst
      rw [countStatements, List.length_append]
      omega
  | declare | declareAs | assign =>
      exact Nat.succ_le_succ (Nat.zero_le _)
  | ifThen _ _ _ _ _ _ _ ih =>
      have hbody := ih id
      rw [Node.countStatements_singleton] at hbody ⊢
      rw [Node.statementCount]
      simp only [List.length_cons, List.length_append]
      omega
  | ifElse _ _ _ _ _ _ _ _ _ ihx ihy =>
      have hbody := ihx id
      have hother := ihy id
      rw [Node.countStatements_singleton] at hbody hother ⊢
      rw [Node.statementCount]
      simp only [List.length_cons, List.length_append]
      omega
  | @block _ _ _ _ nodes _ _ _ _ ih =>
      have hnodes := ih id
      have hcollapse := Node.statementCount_collapse_le nodes
      rw [Node.countStatements_singleton]
      simp only [List.length_cons, List.length_append, List.length_nil]
      omega
  | evaluate value =>
      have hexpression := List.forall_mem_singleton.mp value.fits
      rw [Node.countStatements_singleton, Node.IsExpression.statementCount_eq hexpression]
      obtain ⟨t, us, rfl, -⟩ := value.opens trivial
      exact Nat.succ_pos _
  | _ => exact absurd trivial hk

/-! ## Loops without a bound -/

/-- A loop comes to a result, and goes on for so many rounds before. A round is refused, or finds
that the loop is over, or gives the state of the next round. -/
inductive Loop {σ : Type} (round : σ → Except Failure (Option σ)) :
    σ → Nat → Except Failure σ → Prop where
  | refused {s : σ} {e : Failure} (h : round s = .error e) : Loop round s 0 (.error e)
  | finished {s : σ} (h : round s = .ok none) : Loop round s 0 (.ok s)
  | again {s s' : σ} {rounds : Nat} {result : Except Failure σ} (h : round s = .ok (some s'))
      (others : Loop round s' rounds result) : Loop round s (rounds + 1) result

/-- A loop comes to a result, in fewer rounds than there are tokens from its first state on. -/
def EndsWithin {σ : Type} (tokens : List Token) (round : σ → Except Failure (Option σ))
    (cursor : σ → Cursor) (s : σ) (result : Except Failure σ) : Prop :=
  ∃ rounds, (cursor s).index + rounds < tokens.length ∧ Loop round s rounds result

namespace Loop

variable {σ : Type} {round : σ → Except Failure (Option σ)}

section Progress

variable {cursor : σ → Cursor}
  (hround : ∀ {s s'}, round s = .ok (some s') → (cursor s).Passes (cursor s'))

include hround

/-- A loop whose rounds make progress ends, after no more rounds than there are tokens. -/
theorem exists_rounds (s : σ) :
    ∃ rounds result, rounds ≤ (cursor s).rest.length ∧ Loop round s rounds result := by
  -- induction on the tokens that remain
  generalize hremain : (cursor s).rest.length = remain
  induction remain using Nat.strongRecOn generalizing s with
  | ind remain ih =>
      cases hresult : round s with
      | error e => exact ⟨0, _, Nat.zero_le _, .refused hresult⟩
      | ok next =>
          cases next with
          | none => exact ⟨0, _, Nat.zero_le _, .finished hresult⟩
          | some s' =>
              have hlt : (cursor s').rest.length < remain := hremain ▸ (hround hresult).length_lt
              obtain ⟨rounds, result, hrounds, hloop⟩ := ih _ hlt s' rfl
              exact ⟨rounds + 1, result, by omega, .again hresult hloop⟩

/-- The rounds that a loop goes on for lead over as many tokens. -/
theorem exists_reaches {s : σ} {rounds : Nat} {result : Except Failure σ}
    (h : Loop round s rounds result) :
    ∃ c, (cursor s).Reaches c ∧ (cursor s).index + rounds ≤ c.index := by
  induction h with
  | refused | finished => exact ⟨_, .refl _, Nat.le_refl _⟩
  | again h _ ih =>
      obtain ⟨c, hreaches, hindex⟩ := ih
      have hfurther := (hround h).further
      exact ⟨c, (hround h).reaches.trans hreaches, by omega⟩

end Progress

section Bounded

variable {bounded : Nat → σ → Except Failure σ}
  (hbounded : ∀ fuel s, bounded (fuel + 1) s
    = round s >>= fun next => next.elim (.ok s) (bounded fuel))

include hbounded

/-- A reader that makes one round of a loop for each step of its bound comes to what the loop comes
to, if the bound allows for it. -/
theorem eq_of_bounded {s : σ} {rounds : Nat} {result : Except Failure σ}
    (h : Loop round s rounds result) {fuel : Nat} (hfuel : rounds < fuel) :
    bounded fuel s = result := by
  induction h generalizing fuel with
  | refused h | finished h =>
      obtain ⟨fuel, rfl⟩ := Nat.exists_eq_add_one.mpr hfuel
      rw [hbounded, h]
      rfl
  | again h _ ih =>
      obtain ⟨fuel, rfl⟩ := Nat.exists_eq_add_one.mpr (Nat.zero_lt_of_lt hfuel)
      rw [hbounded, h]
      exact ih (Nat.lt_of_succ_lt_succ hfuel)

variable {cursor : σ → Cursor}
  (hround : ∀ {s s'}, round s = .ok (some s') → (cursor s).Passes (cursor s'))

include hround

/-- Bounds beyond the tokens that remain make no difference. -/
theorem bounded_eq {s : σ} {fuel fuel' : Nat} (hfuel : (cursor s).rest.length < fuel)
    (hfuel' : (cursor s).rest.length < fuel') : bounded fuel s = bounded fuel' s := by
  obtain ⟨rounds, result, hrounds, hloop⟩ := exists_rounds hround s
  rw [eq_of_bounded hbounded hloop (Nat.lt_of_le_of_lt hrounds hfuel),
    eq_of_bounded hbounded hloop (Nat.lt_of_le_of_lt hrounds hfuel')]

/-- A bound beyond the tokens that remain is never met, and the loop ends before the text does. -/
theorem endsWithin_bounded {tokens : List Token} (htokens : EndsOnce tokens) {s : σ}
    (hs : (cursor s).In tokens) {fuel : Nat} (hfuel : (cursor s).rest.length < fuel) :
    EndsWithin tokens round cursor s (bounded fuel s) := by
  obtain ⟨rounds, result, hrounds, hloop⟩ := exists_rounds hround s
  obtain ⟨c, hreaches, hindex⟩ := exists_reaches hround hloop
  rw [eq_of_bounded hbounded hloop (Nat.lt_of_le_of_lt hrounds hfuel)]
  exact ⟨rounds, Nat.lt_of_le_of_lt hindex (hreaches.stays htokens hs).inside, hloop⟩

end Bounded

end Loop

/-! ## Trees read before -/

/-- What a reader of several trees comes to, behind trees that were read before. -/
def prepend (nodes : List Node) (result : Except Failure (List Node × Cursor)) :
    Except Failure (List Node × Cursor) :=
  result.map fun r => (nodes ++ r.1, r.2)

theorem prepend_nil (result : Except Failure (List Node × Cursor)) :
    prepend [] result = result := by
  cases result <;> rfl

/-- The first of the trees that follow is one of those that were read before the others. -/
theorem prepend_cons (nodes : List Node) (node : Node)
    (result : Except Failure (List Node × Cursor)) :
    prepend nodes (result >>= fun r => .ok (node :: r.1, r.2))
      = prepend (nodes ++ [node]) result := by
  cases result with
  | error e => rfl
  | ok r =>
      show Except.ok (nodes ++ node :: r.1, r.2) = .ok (nodes ++ [node] ++ r.1, r.2)
      rw [List.append_assoc, List.singleton_append]

/-! ## Statements -/

/-- One round of the loop over statements, behind those that were read before. -/
def statementRound (statement : Production) (ends : Lexeme → Bool) :
    List Node × Cursor → Except Failure (Option (List Node × Cursor))
  | (nodes, c) =>
    if ends c.lexeme then .ok none
    else do
      let (node, c) ← statement c
      return some (nodes ++ [node], c.skipSemicolons)

/-- A round of the loop over statements steps over a token. -/
theorem statementRound_passes {statement : Production} (hstatement : Progresses statement)
    {ends : Lexeme → Bool} {s s' : List Node × Cursor}
    (h : statementRound statement ends s = .ok (some s')) : s.2.Passes s'.2 := by
  rw [statementRound] at h
  split at h
  · cases h
  · obtain ⟨⟨node, c₁⟩, hnode, h⟩ := bind_eq_ok_iff.mp h
    cases h
    exact (hstatement hnode).reach c₁.reaches_skipSemicolons

/-- What follows some statements. -/
def moreStatements (statement : Production) (ends : Lexeme → Bool) (fuel : Nat) :
    List Node × Cursor → Except Failure (List Node × Cursor)
  | (nodes, c) => prepend nodes (statements statement ends fuel c)

/-- Reading more statements is one round after the other. -/
theorem moreStatements_succ (statement : Production) (ends : Lexeme → Bool) (fuel : Nat)
    (s : List Node × Cursor) :
    moreStatements statement ends (fuel + 1) s
      = statementRound statement ends s >>= fun next =>
        next.elim (.ok s) (moreStatements statement ends fuel) := by
  obtain ⟨nodes, c⟩ := s
  rw [moreStatements, statements, statementRound]
  by_cases hends : ends c.lexeme = true
  · rw [if_pos hends, if_pos hends]
    show Except.ok (nodes ++ [], c) = .ok (nodes, c)
    rw [List.append_nil]
  · rw [if_neg hends, if_neg hends]
    cases statement c with
    | error e => rfl
    | ok r => exact prepend_cons nodes r.1 (statements statement ends fuel r.2.skipSemicolons)

/-- The bound on the steps of a loop over statements is never reached. -/
theorem statements_fuel {statement : Production} (hstatement : Progresses statement)
    {ends : Lexeme → Bool} {fuel fuel' : Nat} {c : Cursor} (h : c.rest.length < fuel)
    (h' : c.rest.length < fuel') :
    statements statement ends fuel c = statements statement ends fuel' c := by
  have heq := Loop.bounded_eq (moreStatements_succ statement ends)
    (statementRound_passes hstatement) (s := ([], c)) h h'
  rwa [moreStatements, moreStatements, prepend_nil, prepend_nil] at heq

/-! ## Operators -/

/-- One round of the loop over operands that group to the left. -/
def chainRound (operand : Production) (build? : Operator → Option (Node → Node → Node)) :
    Node × Cursor → Except Failure (Option (Node × Cursor))
  | (left, c) =>
    match c.token.joining?.bind build? with
    | none => .ok none
    | some build => do
      let (right, c) ← operand c.advance
      return some (build left right, c)

/-- A round of the loop over operands steps over its operator. -/
theorem chainRound_passes {operand : Production} (hoperand : Progresses operand)
    {build? : Operator → Option (Node → Node → Node)} {s s' : Node × Cursor}
    (h : chainRound operand build? s = .ok (some s')) : s.2.Passes s'.2 := by
  rw [chainRound] at h
  split at h
  · cases h
  · obtain ⟨⟨right, c₁⟩, hright, h⟩ := bind_eq_ok_iff.mp h
    cases h
    have hbehind : s.2.advance.Passes c₁ := hoperand hright
    exact s.2.reaches_advance.passes hbehind

/-- What follows some operands. -/
def moreOperands (operand : Production) (build? : Operator → Option (Node → Node → Node))
    (fuel : Nat) : Node × Cursor → Except Failure (Node × Cursor)
  | (left, c) => chain operand build? fuel left c

/-- Reading more operands is one round after the other. -/
theorem moreOperands_succ (operand : Production) (build? : Operator → Option (Node → Node → Node))
    (fuel : Nat) (s : Node × Cursor) :
    moreOperands operand build? (fuel + 1) s
      = chainRound operand build? s >>= fun next =>
        next.elim (.ok s) (moreOperands operand build? fuel) := by
  obtain ⟨left, c⟩ := s
  rw [moreOperands, chain, chainRound]
  cases c.token.joining?.bind build? with
  | none => rfl
  | some build =>
      dsimp only
      cases operand c.advance <;> rfl

/-- The bound on the steps of a loop over operators is never reached. -/
theorem chain_fuel {operand : Production} (hoperand : Progresses operand)
    {build? : Operator → Option (Node → Node → Node)} {fuel fuel' : Nat} {left : Node} {c : Cursor}
    (h : c.rest.length < fuel) (h' : c.rest.length < fuel') :
    chain operand build? fuel left c = chain operand build? fuel' left c :=
  Loop.bounded_eq (moreOperands_succ operand build?) (chainRound_passes hoperand) (s := (left, c))
    h h'

/-! ## Arguments -/

/-- One round of the loop over arguments, behind those that were read before. -/
def argumentRound (expression : Production) :
    List Node × Cursor → Except Failure (Option (List Node × Cursor))
  | (nodes, c) =>
    if c.lexeme = .mark .comma then do
      let (node, c) ← expression c.advance
      return some (nodes ++ [node], c)
    else .ok none

/-- A round of the loop over arguments steps over its comma. -/
theorem argumentRound_passes {expression : Production} (hexpression : Progresses expression)
    {s s' : List Node × Cursor} (h : argumentRound expression s = .ok (some s')) :
    s.2.Passes s'.2 := by
  rw [argumentRound] at h
  split at h
  · obtain ⟨⟨node, c₁⟩, hnode, h⟩ := bind_eq_ok_iff.mp h
    cases h
    exact s.2.reaches_advance.passes (hexpression hnode)
  · cases h

/-- What follows some arguments: more of them behind a comma, or nothing. -/
def moreArguments (expression : Production) (fuel : Nat) :
    List Node × Cursor → Except Failure (List Node × Cursor)
  | (nodes, c) =>
    if c.lexeme = .mark .comma then prepend nodes (arguments expression fuel c.advance)
    else .ok (nodes, c)

/-- The loop over arguments is one expression and then a loop that begins with a comma. -/
theorem prepend_arguments (expression : Production) (fuel : Nat) (nodes : List Node) (c : Cursor) :
    prepend nodes (arguments expression (fuel + 1) c)
      = expression c >>= fun r => moreArguments expression fuel (nodes ++ [r.1], r.2) := by
  rw [arguments]
  cases expression c with
  | error e => rfl
  | ok r =>
      obtain ⟨first, c₁⟩ := r
      rw [ok_bind, ok_bind, moreArguments]
      dsimp only
      split
      · exact prepend_cons nodes first (arguments expression fuel c₁.advance)
      · rfl

/-- Reading more arguments is one round after the other. -/
theorem moreArguments_succ (expression : Production) (fuel : Nat) (s : List Node × Cursor) :
    moreArguments expression (fuel + 1) s
      = argumentRound expression s >>= fun next =>
        next.elim (.ok s) (moreArguments expression fuel) := by
  obtain ⟨nodes, c⟩ := s
  rw [moreArguments, argumentRound]
  split
  · rw [prepend_arguments]
    cases expression c.advance <;> rfl
  · rfl

/-- The bound on the steps of a loop over arguments is never reached. -/
theorem arguments_fuel {expression : Production} (hexpression : Progresses expression)
    {fuel fuel' : Nat} {c : Cursor} (h : c.rest.length < fuel + 1) (h' : c.rest.length < fuel' + 1) :
    arguments expression (fuel + 1) c = arguments expression (fuel' + 1) c := by
  rw [← prepend_nil (arguments expression (fuel + 1) c),
    ← prepend_nil (arguments expression (fuel' + 1) c), prepend_arguments, prepend_arguments]
  cases hfirst : expression c with
  | error e => rfl
  | ok r =>
      have hlt := (hexpression hfirst).length_lt
      exact Loop.bounded_eq (moreArguments_succ expression) (argumentRound_passes hexpression)
        (s := ([r.1], r.2)) (Nat.lt_of_lt_of_le hlt (Nat.le_of_lt_succ h))
        (Nat.lt_of_lt_of_le hlt (Nat.le_of_lt_succ h'))

/-! ## The loops of a level -/

/-- The production of a layer. -/
def Layer.rule : Layer → Rule
  | .disjunction => .disjunction
  | .conjunction => .conjunction
  | .additive => .additive
  | .multiplicative => .multiplicative

/-- The production of the operands of a layer. -/
def Layer.operandRule : Layer → Rule
  | .disjunction => .conjunction
  | .conjunction => .comparison
  | .additive => .multiplicative
  | .multiplicative => .exponent

variable {ρ : ProviderId}

/-- The rule of a layer is a chain of its operands. -/
theorem Layer.read_rule (l : Layer) (inner : Level) :
    l.rule.read ρ inner = leftChain (l.operandRule.read ρ inner) l.build? := by
  cases l <;> rfl

section Loops

variable {tokens : List Token} (htokens : EndsOnce tokens) {inner : Level}
  (hinner : inner.Advances)

include htokens hinner

/-- The loop over the statements of a program or of a block ends with what the reader comes to. -/
theorem statementList_endsWithin (ends : Lexeme → Bool) {c : Cursor} (hc : c.In tokens) :
    EndsWithin tokens (statementRound inner.statement ends) Prod.snd ([], c.skipSemicolons)
      (statementList inner ends c) := by
  have hskipped : c.skipSemicolons.In tokens := c.reaches_skipSemicolons.stays htokens hc
  have hlist : statementList inner ends c = moreStatements inner.statement ends
      (c.skipSemicolons.rest.length + 1) ([], c.skipSemicolons) := by
    rw [moreStatements, prepend_nil, statementList]
  rw [hlist]
  exact Loop.endsWithin_bounded (moreStatements_succ inner.statement ends)
    (statementRound_passes (hinner .statement)) htokens hskipped (Nat.lt_succ_self _)

/-- The loop over the operators of a layer ends with what the reader comes to. -/
theorem layer_endsWithin (l : Layer) {c c₁ : Cursor} {left : Node} (hc : c.In tokens)
    (hleft : l.operandRule.read ρ inner c = .ok (left, c₁)) :
    EndsWithin tokens (chainRound (l.operandRule.read ρ inner) l.build?) Prod.snd (left, c₁)
      (l.rule.read ρ inner c) := by
  have hoperand : Progresses (l.operandRule.read ρ inner) := l.operandRule.progresses hinner
  have hc₁ : c₁.In tokens := (hoperand hleft).reaches.stays htokens hc
  rw [Layer.read_rule, leftChain, hleft, ok_bind]
  exact Loop.endsWithin_bounded (moreOperands_succ (l.operandRule.read ρ inner) l.build?)
    (chainRound_passes hoperand) htokens hc₁ (Nat.lt_succ_self _)

/-- The loop over the arguments of a call ends with what the reader comes to. -/
theorem argumentList_endsWithin {c c₁ : Cursor} {first : Node} (hc : c.In tokens)
    (hopen : c.lexeme ≠ .mark .closeParen) (hfirst : inner.expression c = .ok (first, c₁)) :
    EndsWithin tokens (argumentRound inner.expression) Prod.snd ([first], c₁)
      (argumentList inner c) := by
  have hpasses : c.Passes c₁ := hinner .expression hfirst
  have hc₁ : c₁.In tokens := hpasses.reaches.stays htokens hc
  have hlist : argumentList inner c
      = moreArguments inner.expression c.rest.length ([first], c₁) := by
    rw [argumentList, if_neg hopen, ← prepend_nil (arguments _ _ c), prepend_arguments, hfirst]
    rfl
  rw [hlist]
  exact Loop.endsWithin_bounded (moreArguments_succ inner.expression)
    (argumentRound_passes (hinner .expression)) htokens hc₁ hpasses.length_lt

end Loops

/-! ## Whole texts -/

/-- How the productions from a level of nesting go through a text. -/
structure GoesThrough (ρ : ProviderId) (tokens : List Token) (inner : Level) : Prop where
  /-- A production that succeeds ends further on, at the end of the text at most. -/
  progress : ∀ (rule : Rule) {c c' : Cursor} {node : Node}, c.In tokens →
    rule.read ρ inner c = .ok (node, c') → c'.In tokens ∧ c.index < c'.index
  /-- The loop over the statements of a program or of a block ends. -/
  statements : ∀ (ends : Lexeme → Bool) {c : Cursor}, c.In tokens →
    EndsWithin tokens (statementRound inner.statement ends) Prod.snd ([], c.skipSemicolons)
      (statementList inner ends c)
  /-- The loop over operators of a layer ends. -/
  operators : ∀ (l : Layer) {c c₁ : Cursor} {left : Node}, c.In tokens →
    l.operandRule.read ρ inner c = .ok (left, c₁) →
    EndsWithin tokens (chainRound (l.operandRule.read ρ inner) l.build?) Prod.snd (left, c₁)
      (l.rule.read ρ inner c)
  /-- The loop over the arguments of a call ends. -/
  arguments : ∀ {c c₁ : Cursor} {first : Node}, c.In tokens → c.lexeme ≠ .mark .closeParen →
    inner.expression c = .ok (first, c₁) →
    EndsWithin tokens (argumentRound inner.expression) Prod.snd ([first], c₁) (argumentList inner c)
  /-- A list holds no more statements than the tokens that it was read from. -/
  counted : ∀ {ends : Lexeme → Bool} {c c' : Cursor} {nodes : List Node}, c.In tokens →
    statementList inner ends c = .ok (nodes, c') →
    c'.In tokens ∧ c.index + countStatements nodes ≤ c'.index

/-- What makes progress and reads phrases goes through every text. -/
theorem goesThrough {tokens : List Token} (htokens : EndsOnce tokens) {inner : Level}
    (hinner : inner.Advances) {n : Nat} (hin : inner.Reads ρ n) : GoesThrough ρ tokens inner where
  progress rule c c' node hc h :=
    have hpasses : c.Passes c' := rule.progresses hinner h
    ⟨hpasses.reaches.stays htokens hc, hpasses.further⟩
  statements := statementList_endsWithin htokens hinner
  operators := layer_endsWithin htokens hinner
  arguments := argumentList_endsWithin htokens hinner
  counted := by
    intro ends c c' nodes hc h
    have hreaches : c.Reaches c' := (statementList_course (Nat.lt_succ_self _)).result hinner h
    refine ⟨hreaches.stays htokens hc, ?_⟩
    obtain ⟨i, r, s⟩ := c
    obtain ⟨d, -, ts, rest, rfl, hder, -, rfl⟩ := statementList_sound hin h
    exact Nat.add_le_add_left (hder.countStatements_le id) i

/-- The cursor before a text stands in it. -/
theorem EndsOnce.in_start {tokens : List Token} (h : EndsOnce tokens) :
    (Cursor.start tokens).In tokens := by
  obtain ⟨front, last, rfl, -, -⟩ := h
  refine ⟨?_, rfl⟩
  rw [List.length_append]
  exact Nat.succ_pos _

/-- A cursor at the end of the text has all other tokens behind it. -/
theorem EndsOnce.index_of_end {tokens : List Token} (h : EndsOnce tokens) {c : Cursor}
    (hc : c.In tokens) (hend : c.lexeme = .endOfText) : c.index + 1 = tokens.length := by
  obtain ⟨front, last, rfl, -, hfront⟩ := h
  have hinside := hc.inside
  rw [List.length_append, List.length_singleton] at hinside ⊢
  rcases Nat.lt_or_ge c.index front.length with hbefore | hafter
  · have hrest : c.rest = front[c.index] :: (front.drop (c.index + 1) ++ [last]) := by
      rw [hc.rest, List.drop_append_of_le_length (Nat.le_of_lt hbefore),
        List.drop_eq_getElem_cons hbefore, List.cons_append]
    have hlexeme : c.lexeme = front[c.index].lexeme := by
      rw [Cursor.lexeme, Cursor.token, hrest, List.headD_cons]
    exact absurd (hlexeme ▸ hend) (hfront _ (List.getElem_mem hbefore))
  · omega

/-- The tokens of a text end once. -/
theorem endsOnce_of_tokenize {source : Text} {tokens : List PlacedToken}
    (h : tokenize source = .ok tokens) : EndsOnce (tokens.map (·.toToken)) := by
  obtain ⟨front, last, rfl, hlast, hfront⟩ := scanFrom_end (tokenize_eq_ok_iff.mp h)
  refine ⟨front.map (·.toToken), last.toToken, List.map_append, hlast, ?_⟩
  intro t ht
  obtain ⟨u, hu, rfl⟩ := List.mem_map.mp ht
  exact hfront u hu

/-- Reading makes progress from every cursor in a text, and every loop of it ends. A text that is
accepted has been read up to its end, and holds fewer statements than tokens. -/
theorem reading_progresses {tokens : List Token} (htokens : EndsOnce tokens) (limit : Nat) :
    (∀ budget, GoesThrough ρ tokens (Level.ofBudget ρ limit budget))
    ∧ ∀ {nodes : List Node} {scope : Scope},
      (Level.ofBudget ρ limit limit).readProgram tokens = .ok (nodes, scope) →
      ∃ c, statementList (Level.ofBudget ρ limit limit) endsProgram (Cursor.start tokens)
          = .ok (nodes, c)
        ∧ c.scope = scope ∧ c.In tokens ∧ c.index + 1 = tokens.length
        ∧ nodes.length ≤ countStatements nodes ∧ countStatements nodes < tokens.length := by
  have hthrough : ∀ budget, GoesThrough ρ tokens (Level.ofBudget ρ limit budget) :=
    fun budget => goesThrough htokens (Level.advances_ofBudget limit budget)
      (Level.ofBudget_reads limit budget)
  refine ⟨hthrough, ?_⟩
  intro nodes scope h
  obtain ⟨⟨nodes', c⟩, hlist, h⟩ := bind_eq_ok_iff.mp h
  cases h
  obtain ⟨hc, hcount⟩ := (hthrough limit).counted htokens.in_start hlist
  obtain ⟨-, -, -, -, -, -, hends, -⟩ :=
    statementList_sound (Level.ofBudget_reads limit limit) hlist
  have hindex : c.index + 1 = tokens.length :=
    htokens.index_of_end hc (of_decide_eq_true hends)
  refine ⟨c, hlist, rfl, hc, hindex, Node.length_le_countStatements nodes, ?_⟩
  have hstart : (Cursor.start tokens).index = 0 := rfl
  omega

/-- Statements inside of a block count, too. -/
theorem reading_progresses_block :
    ∃ tokens, tokenize (Text.ofString "a = b;; \x7b -b; if (c) a \x7d") = .ok tokens
      ∧ EndsOnce (tokens.map (·.toToken))
      ∧ ∃ nodes c, statementList (Level.ofBudget ⟨0⟩ nestingLimit nestingLimit) endsProgram
          (Cursor.start (tokens.map (·.toToken))) = .ok (nodes, c)
        ∧ c.index + 1 = tokens.length ∧ nodes.length = 2 ∧ countStatements nodes = 5
        ∧ countStatements nodes < tokens.length := by
  have hread : ((tokenize (Text.ofString "a = b;; \x7b -b; if (c) a \x7d")).toOption.map fun tokens =>
      ((Level.ofBudget ⟨0⟩ nestingLimit nestingLimit).readProgram
        (tokens.map (·.toToken))).map Prod.fst)
      = some (.ok [.assign .set (Text.ofString "a") (.read (Text.ofString "b")),
        .sequence [.negate (.read (Text.ofString "b")),
          .ifThen (.read (Text.ofString "c")) (.read (Text.ofString "a"))]]) := rfl
  cases htokens : tokenize (Text.ofString "a = b;; \x7b -b; if (c) a \x7d") with
  | error e =>
      rw [htokens] at hread
      cases hread
  | ok tokens =>
      rw [htokens] at hread
      have hends : EndsOnce (tokens.map (·.toToken)) := endsOnce_of_tokenize htokens
      have hmap := Option.some.inj hread
      dsimp only at hmap
      cases hprogram : (Level.ofBudget ⟨0⟩ nestingLimit nestingLimit).readProgram
          (tokens.map (·.toToken)) with
      | error e =>
          rw [hprogram] at hmap
          cases hmap
      | ok r =>
          obtain ⟨nodes, scope⟩ := r
          rw [hprogram] at hmap
          obtain rfl := Except.ok.inj hmap
          obtain ⟨c, hlist, -, -, hindex, -, hcount⟩ :=
            (reading_progresses hends nestingLimit).2 hprogram
          rw [List.length_map] at hindex hcount
          exact ⟨tokens, rfl, hends, _, c, hlist, hindex, rfl, rfl, hcount⟩

end Grammar

end Formulary
