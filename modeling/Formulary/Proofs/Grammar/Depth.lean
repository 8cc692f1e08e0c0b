import Formulary.Proofs.Grammar.Program

/-!
# How deep a phrase nests

A phrase nests to one depth only: whatever derivation it has, a reader with too small a budget does
not get to its end. So the depth that a derivation counts decides whether a text is accepted.

- `Exact ρ p n k` says that the production `p` reads the phrases of kind `k`, and that it reads none
  that nests `n` levels deep or deeper.
- `Exact.step` is how a phrase at the start of a production is passed: it nests within the budget,
  and reading goes on behind it.
- `Formula.parseWithin_isOk_iff` says that a program is accepted exactly within its depth.
-/

namespace Formulary

namespace Grammar

variable {ρ : ProviderId} {inner : Level} {n : Nat}

/-- The production accepts the phrases of a kind, and none of depth `n`. -/
structure Exact (ρ : ProviderId) (p : Production) (n : Nat) (k : Category) : Prop
    extends Reads ρ p n k where
  /-- A phrase in front of which the production succeeds is not too deep. -/
  bound : ∀ {i : Nat} {s : Scope} {d : Nat} {ts rest : List Token} {node : Node}
    {result : Node × Cursor},
    Derives ρ d k ts [node] rest → p ⟨i, ts ++ rest, s⟩ = .ok result → d < n

/-- A phrase is passed: it is not too deep, and the production goes on behind it. -/
theorem Exact.step {α : Type} {p : Production} {k : Category} (hp : Exact ρ p n k) {i d : Nat}
    {s : Scope} {ts rest : List Token} {node : Node} (hder : Derives ρ d k ts [node] rest)
    {f : Node × Cursor → Except Failure α} {result : α}
    (h : p ⟨i, ts ++ rest, s⟩ >>= f = .ok result) :
    d < n ∧ f (node, ⟨i + ts.length, rest, s.visit node⟩) = .ok result := by
  obtain ⟨a, ha, -⟩ := bind_eq_ok_iff.mp h
  have hd := hp.bound hder ha
  rw [hp.complete hd hder, ok_bind] at h
  exact ⟨hd, h⟩

end Grammar

/-- The productions of a level read their phrases and none that is too deep. -/
structure Level.Exact (ρ : ProviderId) (inner : Level) (n : Nat) : Prop where
  statement : Grammar.Exact ρ inner.statement n .statement
  expression : Grammar.Exact ρ inner.expression n .expression
  exponent : Grammar.Exact ρ inner.exponent n .exponent
  unary : Grammar.Exact ρ inner.unary n .unary

/-- What is read exactly up to a depth is read. -/
theorem Level.Exact.reads {ρ : ProviderId} {inner : Level} {n : Nat} (h : inner.Exact ρ n) :
    inner.Reads ρ n :=
  ⟨h.statement.toReads, h.expression.toReads, h.exponent.toReads, h.unary.toReads⟩

namespace Grammar

variable {ρ : ProviderId} {inner : Level} {n : Nat}

/-! ## Expressions -/

/-- Arguments that are read nest no deeper than the level allows. -/
theorem arguments_bound {p : Production} (hp : Exact ρ p n .expression) {rest : List Token} :
    ∀ (fuel i : Nat) (ts : List Token) (s : Scope) (nodes : List Node) (d : Nat)
      (result : List Node × Cursor),
      ts.length < fuel → Derives ρ d .arguments ts nodes rest →
        arguments p fuel ⟨i, ts ++ rest, s⟩ = .ok result → d ≤ n := by
  intro fuel
  induction fuel with
  | zero => intro i ts s nodes d result hfuel; exact absurd hfuel (Nat.not_lt_zero _)
  | succ fuel ih =>
      intro i ts s nodes d result hfuel hder h
      rw [arguments] at h
      cases hder with
      | last argument => exact (hp.step argument h).1
      | @more d e k ts us node nodes _ argument comma others =>
          have hlen : us.length < fuel := by
            simp only [List.length_append, List.length_cons] at hfuel
            omega
          rw [List.append_assoc, List.cons_append] at h
          obtain ⟨hd, h⟩ := hp.step argument h
          simp only [Cursor.lexeme_cons, comma, if_true, Cursor.advance_cons comma (by simp)] at h
          obtain ⟨others', hothers, -⟩ := bind_eq_ok_iff.mp h
          have he := ih _ us _ nodes e _ hlen others hothers
          omega

/-- So it is behind the opening parenthesis of a call. -/
theorem call_bound (hin : inner.Exact ρ n) {name : Text} {index i d : Nat} {ts rest : List Token}
    {s : Scope} {nodes : List Node} {result : Node × Cursor}
    (hder : Derives ρ d .arguments ts nodes rest)
    (h : call ρ inner name index ⟨i, ts ++ rest, s⟩ = .ok result) : d ≤ n := by
  obtain ⟨given, hgiven, -⟩ := bind_eq_ok_iff.mp h
  obtain ⟨fuel, hfuel, heq⟩ := argumentList_eq hder
  rw [heq] at hgiven
  exact arguments_bound hin.expression _ _ _ _ _ _ _ hfuel hder hgiven

/-- Operands that are read nest within the level, and the one in parentheses one level less. -/
theorem primary_exact (hin : inner.Exact ρ n) : Exact ρ (primary ρ inner) (n + 1) .primary where
  toReads := primary_reads hin.reads
  bound := by
    intro i s d ts rest node result hder h
    rw [primary] at h
    cases hder with
    | @group d p q ts _ _ opening body closing =>
        rw [List.cons_append, Cursor.lexeme_cons, opening] at h
        dsimp only at h
        rw [Cursor.advance_cons opening (by simp), List.append_assoc, List.singleton_append] at h
        have hd := (hin.expression.step body h).1
        omega
    | number => exact Nat.succ_pos n
    | read => exact Nat.succ_pos n
    | callEmpty => exact Nat.succ_pos n
    | @call d t p q ts name nodes _ _ callee opening given closing call =>
        simp only [List.cons_append, List.append_assoc, List.nil_append] at h
        rw [Cursor.lexeme_cons, callee] at h
        dsimp only at h
        rw [Cursor.advance_cons callee (by simp), Cursor.token_cons,
          if_pos (Token.joinsWith_iff.mpr opening), Cursor.advance_cons opening.1 (by simp)] at h
        exact Nat.lt_succ_of_le (call_bound hin given h)

/-- The operand of a sign nests one level less. -/
theorem unary_exact (hin : inner.Exact ρ n) : Exact ρ (unary ρ inner) (n + 1) .unary where
  toReads := unary_reads hin.reads
  bound := by
    intro i s d ts rest node result hder h
    cases hder with
    | unsigned value =>
        obtain ⟨t, us, rfl, ht⟩ := value.primary_opens
        rw [List.cons_append, unary_unsigned fun op _ _ => ht op] at h
        exact (primary_exact hin).bound value h
    | @signed d o ts op build node _ kind sign value =>
        rw [List.cons_append, unary_signed kind sign] at h
        exact Nat.succ_lt_succ (hin.unary.step value h).1

/-- The right side of a power nests one level less. -/
theorem exponent_exact (hin : inner.Exact ρ n) : Exact ρ (exponent ρ inner) (n + 1) .exponent where
  toReads := exponent_reads hin.reads
  bound := by
    intro i s d ts rest node result hder h
    rw [exponent] at h
    cases hder with
    | base value => exact ((unary_exact hin).step value h).1
    | @power d e o ts us left right _ raised sign power =>
        rw [List.append_assoc, List.cons_append] at h
        obtain ⟨hd, h⟩ := (unary_exact hin).step raised h
        dsimp only at h
        rw [Cursor.token_cons, if_pos (Token.joining?_eq_some_iff.mpr sign),
          Cursor.advance_cons sign.1 (by simp)] at h
        have he := (hin.exponent.step power h).1
        omega

/-- A run of operands that the loop over operators gets through is not too deep. -/
theorem leftChain_bound {p : Production} {l : Layer} (hp : Exact ρ p n l.operand) {d : Nat}
    {k : Category} {ts rest : List Token} {nodes : List Node} (hder : Derives ρ d k ts nodes rest)
    (hk : k = .run l) {left : Node} (hleft : nodes = [left]) {i : Nat} {s : Scope}
    {result : Node × Cursor} (h : leftChain p l.build? ⟨i, ts ++ rest, s⟩ = .ok result) :
    d < n := by
  induction hder generalizing left with
  | first operand =>
      cases hk
      cases hleft
      exact (hp.step operand h).1
  | @next d e l' o ts us op build left' right rest operands kind sign operand ih _ =>
      cases hk
      cases hleft
      rw [List.append_assoc, List.cons_append] at h
      -- the operands before the last are within the budget, so that the loop comes to its operator
      have hd : d < n := ih rfl rfl h
      obtain ⟨fuel, hfuel, heq⟩ := leftChain_eq_chain hp.toReads operands rfl hd rfl i s
      rw [heq] at h
      cases fuel with
      | zero => exact absurd hfuel (by simp)
      | succ fuel =>
          rw [chain, Cursor.bind_joining?_iff.mpr
            ⟨op, Layer.build?_eq_some_iff.mpr kind, continues_cons.mpr sign⟩] at h
          dsimp only at h
          rw [Cursor.advance_cons sign.1 (by simp)] at h
          have he := (hp.step operand h).1
          omega
  | _ => cases hk

/-- A chain nests as deep as its operands. -/
theorem leftChain_exact {p : Production} {l : Layer} (hp : Exact ρ p n l.operand) :
    Exact ρ (leftChain p l.build?) n (.layer l) where
  toReads := leftChain_reads hp.toReads
  bound := by
    intro i s d ts rest node result hder h
    cases hder with
    | layer operands => exact leftChain_bound hp operands rfl rfl h

theorem additive_exact (hin : inner.Exact ρ n) :
    Exact ρ (additive ρ inner) (n + 1) (.layer .additive) :=
  leftChain_exact (l := .additive) (leftChain_exact (l := .multiplicative) (exponent_exact hin))

/-- A comparison nests as deep as its sums. -/
theorem comparison_exact (hin : inner.Exact ρ n) :
    Exact ρ (comparison ρ inner) (n + 1) .comparison where
  toReads := comparison_reads hin.reads
  bound := by
    intro i s d ts rest node result hder h
    rw [comparison] at h
    cases hder with
    | uncompared value => exact ((additive_exact hin).step value h).1
    | @compared d e o ts us op cmp left right _ smaller kind sign larger =>
        rw [List.append_assoc, List.cons_append] at h
        obtain ⟨hd, h⟩ := (additive_exact hin).step smaller h
        dsimp only at h
        rw [Cursor.bind_joining?_iff.mpr ⟨op, comparison?_eq_some_iff.mpr ⟨cmp, kind, rfl⟩,
          continues_cons.mpr sign⟩] at h
        dsimp only at h
        rw [Cursor.advance_cons sign.1 (by simp)] at h
        have he := ((additive_exact hin).step larger h).1
        omega

theorem disjunction_exact (hin : inner.Exact ρ n) :
    Exact ρ (disjunction ρ inner) (n + 1) (.layer .disjunction) :=
  leftChain_exact (l := .disjunction) (leftChain_exact (l := .conjunction) (comparison_exact hin))

/-- The second value of a choice nests one level less. -/
theorem choice_exact (hin : inner.Exact ρ n) : Exact ρ (choice ρ inner) (n + 1) .expression where
  toReads := choice_reads hin.reads
  bound := by
    intro i s d ts rest node result hder h
    rw [choice] at h
    cases hder with
    | plain value => exact ((disjunction_exact hin).step value h).1
    | @choice d e f q k ts us vs condition whenTrue whenFalse _ test question left colon right =>
        simp only [List.append_assoc, List.cons_append] at h
        obtain ⟨hd, h⟩ := (disjunction_exact hin).step test h
        dsimp only at h
        rw [Cursor.token_cons, if_pos (Token.joinsWith_iff.mpr question),
          Cursor.advance_cons question.1 (by simp)] at h
        obtain ⟨he, h⟩ := (disjunction_exact hin).step left h
        dsimp only at h
        rw [Cursor.expect_eq_ok_iff.mpr ⟨k, _, rfl, colon, rfl⟩, ok_bind] at h
        have hf := (hin.expression.step right h).1
        omega

/-! ## Statements -/

/-- Statements that the loop over statements gets through are not too deep. -/
theorem statements_bound {p : Production} (hp : Exact ρ p n .statement) {ends : Lexeme → Bool}
    (hcloses : Closes ends) {d : Nat} {k : Category} {ts rest : List Token} {nodes : List Node}
    (hder : Derives ρ d k ts nodes rest) (hk : k = .statements) {i fuel : Nat} {s : Scope}
    (hfuel : (Cursor.skipSemicolons ⟨i, ts ++ rest, s⟩).rest.length < fuel)
    {result : List Node × Cursor}
    (h : statements p ends fuel (Cursor.skipSemicolons ⟨i, ts ++ rest, s⟩) = .ok result) :
    d ≤ n := by
  induction hder generalizing i fuel s result with
  | none => exact Nat.zero_le n
  | semicolon mark _ ih =>
      rw [List.cons_append, Cursor.skipSemicolons_semicolon mark] at hfuel h
      exact ih rfl hfuel h
  | @cons d e ts us node nodes rest first others _ ih =>
      rw [List.append_assoc] at hfuel h
      cases fuel with
      | zero => exact absurd hfuel (Nat.not_lt_zero _)
      | succ fuel =>
          rw [statements_cons hcloses first] at h
          obtain ⟨hd, h⟩ := hp.step first h
          obtain ⟨others', hothers, -⟩ := bind_eq_ok_iff.mp h
          have he := ih rfl (length_skipSemicolons_lt first hfuel) hothers
          omega
  | _ => cases hk

/-- Statements that are read nest no deeper than the level allows. -/
theorem statementList_bound (hin : inner.Exact ρ n) {ends : Lexeme → Bool} (hcloses : Closes ends)
    {i d : Nat} {ts rest : List Token} {s : Scope} {nodes : List Node}
    {result : List Node × Cursor} (hder : Derives ρ d .statements ts nodes rest)
    (h : statementList inner ends ⟨i, ts ++ rest, s⟩ = .ok result) : d ≤ n :=
  statements_bound hin.statement hcloses hder rfl (Nat.lt_succ_self _) h

/-- The first value of a declaration nests one level less. -/
theorem declaration_bound (hin : inner.Exact ρ n) {i d : Nat} {l t o : Token} {ts rest : List Token}
    {s : Scope} {name : Text} {value : Node} {result : Node × Cursor} (hl : l.lexeme.isLet)
    (ht : t.lexeme = .name name) (ho : o.Joins (.operator .assign))
    (hder : Derives ρ d .expression ts [value] rest)
    (h : declaration inner ⟨i, l :: t :: o :: (ts ++ rest), s⟩ = .ok result) : d < n := by
  rw [declaration] at h
  dsimp only at h
  rw [Cursor.advance_cons (lexeme_of_isLet hl) (by simp), Cursor.lexeme_cons, ht] at h
  dsimp only at h
  rw [Cursor.advance_cons ht (by simp), Cursor.bind, Cursor.token_cons,
    if_pos (Token.joining?_eq_some_iff.mpr ho), Cursor.advance_cons ho.1 (by simp)] at h
  exact (hin.expression.step hder h).1

/-- The condition and the first statement of a conditional are not too deep. -/
theorem conditional_bound (hin : inner.Exact ρ n) {w p q : Token} {i d e : Nat}
    {ts us rest : List Token} {s : Scope} {condition body : Node} {result : Node × Cursor}
    (hw : w.lexeme.isIf) (hp : p.lexeme = .mark .openParen)
    (htest : Derives ρ d .expression ts [condition] (q :: (us ++ rest)))
    (hq : q.lexeme = .mark .closeParen) (hbody : Derives ρ e .statement us [body] rest)
    (h : conditional inner ⟨i, w :: p :: (ts ++ q :: (us ++ rest)), s⟩ = .ok result) :
    d < n ∧ e < n := by
  rw [conditional, Cursor.advance_cons (lexeme_of_isIf hw) (by simp),
    Cursor.expect_eq_ok_iff.mpr ⟨p, _, rfl, hp, rfl⟩, ok_bind] at h
  obtain ⟨hd, h⟩ := hin.expression.step htest h
  dsimp only at h
  rw [Cursor.expect_eq_ok_iff.mpr ⟨q, _, rfl, hq, rfl⟩, ok_bind] at h
  exact ⟨hd, (hin.statement.step hbody h).1⟩

/-- A statement nests one level less than its level allows, in each of its forms. -/
theorem statement_exact (hin : inner.Exact ρ n) : Exact ρ (statement inner) (n + 1) .statement where
  toReads := statement_reads hin.reads
  bound := by
    intro i s d ts rest node result hder h
    rw [statement] at h
    refine Nat.lt_succ_of_le ?_
    cases hder with
    | declare => exact Nat.zero_le n
    | @declareAs d l t o ts name value _ word target sign initializer =>
        simp only [List.cons_append] at h
        rw [Cursor.lexeme_cons, if_pos word] at h
        exact declaration_bound hin word target sign initializer h
    | @ifThen d e w p q ts us condition body _ word opening test closing branch ends =>
        simp only [List.cons_append, List.append_assoc] at h
        rw [Cursor.lexeme_cons, if_neg (not_isLet_of_isIf word), if_pos word] at h
        obtain ⟨hd, he⟩ := conditional_bound hin word opening test closing branch h
        omega
    | @ifElse d e f w p q v ts us seps vs condition body otherwise _ word opening test closing
        branch separator other alternative =>
        simp only [List.cons_append, List.append_assoc] at h
        rw [Cursor.lexeme_cons, if_neg (not_isLet_of_isIf word), if_pos word] at h
        obtain ⟨hd, he⟩ := conditional_bound hin word opening test closing branch h
        -- both are within the budget, so that the other statement is reached
        rw [conditional_eq hin.reads word opening hd test closing he branch] at h
        dsimp only at h
        rw [skipBeforeElse_of_separator separator other, Cursor.lexeme_cons, if_pos other,
          Cursor.advance_cons (lexeme_of_isElse other) (by simp)] at h
        have hf := (hin.statement.step alternative h).1
        omega
    | @block d p q ts nodes _ opening body closing =>
        simp only [List.cons_append, List.append_assoc, List.nil_append] at h
        rw [Cursor.lexeme_cons, opening, if_neg Bool.noConfusion, if_neg Bool.noConfusion,
          if_pos rfl, block, Cursor.advance_cons opening (by simp)] at h
        obtain ⟨body', hbody, -⟩ := bind_eq_ok_iff.mp h
        exact statementList_bound hin closes_endsBlock body hbody
    | @assign d t o ts name op asg value _ target plain kind sign assigned =>
        simp only [List.cons_append] at h
        have hbrace : ¬ t.lexeme = .mark .openBrace := by
          rw [target]
          exact Lexeme.noConfusion
        have hasg : (Cursor.following ⟨i, t :: o :: (ts ++ rest), s⟩).joining?.bind
            Operator.assignment? = some asg :=
          Cursor.bind_joining?_iff (i := i) (s := s).mpr
            ⟨op, assignment?_eq_some_iff.mpr kind, continues_cons.mpr sign⟩
        rw [Cursor.lexeme_cons, if_neg plain.1, if_neg plain.2, if_neg hbrace, assignment, hasg,
          Cursor.lexeme_cons, target] at h
        dsimp only at h
        rw [Cursor.advance_cons target (by simp), Cursor.advance_cons sign.1 (by simp)] at h
        exact (hin.expression.step assigned h).1
    | evaluate value plain =>
        obtain ⟨t, us, rfl, ht⟩ := value.opens trivial
        have hbrace : ¬ t.lexeme = .mark .openBrace := by
          intro heq
          rw [heq] at ht
          cases ht
        rw [List.cons_append, Cursor.lexeme_cons, if_neg (fun h => plain (.inl h)),
          if_neg (fun h => plain (.inr (.inl h))), if_neg hbrace, assignment] at h
        split at h
        · rename_i name asg hname hasg
          exact absurd (.inr (.inr ⟨⟨name, hname⟩, continuesAssignment_iff.mpr ⟨asg, hasg⟩⟩)) plain
        · exact hin.expression.bound value h

end Grammar

/-! ## Levels of nesting and whole texts -/

variable {ρ : ProviderId}

/-- A budget of `n` levels lets no phrase pass that nests `n` levels deep. -/
theorem Level.ofBudget_exact (limit n : Nat) : (ofBudget ρ limit n).Exact ρ n := by
  induction n with
  | zero =>
      have hreads := exhausted_reads (ρ := ρ) limit
      exact ⟨⟨hreads.statement, fun _ h => (nomatch h)⟩, ⟨hreads.expression, fun _ h => (nomatch h)⟩,
        ⟨hreads.exponent, fun _ h => (nomatch h)⟩, ⟨hreads.unary, fun _ h => (nomatch h)⟩⟩
  | succ n ih =>
      exact ⟨Grammar.statement_exact ih, Grammar.choice_exact ih, Grammar.exponent_exact ih,
        Grammar.unary_exact ih⟩

open Grammar

/-- A program that is read nests within the limit, in every derivation that it has. -/
theorem Level.Exact.depth_le {inner : Level} {n d : Nat} (hin : inner.Exact ρ n) {ts : List Token}
    {last : Token} (hlast : last.lexeme = .endOfText) {nodes : List Node}
    (hder : Derives ρ d .statements ts nodes []) {result : List Node × Scope}
    (h : inner.readProgram (ts ++ [last]) = .ok result) : d ≤ n := by
  obtain ⟨list, hlist, -⟩ := bind_eq_ok_iff.mp h
  have hder' : Derives ρ d .statements ts nodes [last] := hder.detach (detached_end hlast)
  exact statementList_bound hin closes_endsProgram hder' hlist

/-- A text whose tokens are a program is accepted exactly if the program nests within the limit. -/
theorem Formula.parseWithin_isOk_iff {limit d : Nat} {source : Text} {tokens : List PlacedToken}
    (htokens : tokenize source = .ok tokens) {root : Node}
    (hprogram : Program ρ d (phrase tokens) root) :
    (∃ f, parseWithin ρ limit source = .ok f ∧ f.root = root) ↔ d ≤ limit := by
  obtain ⟨nodes, hder, rfl⟩ := hprogram
  constructor
  · rintro ⟨f, hf, -⟩
    rw [parseWithin, parseAt, htokens, ok_bind] at hf
    split at hf
    · rename_i nodes' scope hread
      obtain ⟨init, last, rfl, hlast, -⟩ := scanFrom_end (tokenize_eq_ok_iff.mp htokens)
      rw [phrase, List.dropLast_concat] at hder
      rw [List.map_append, List.map_singleton] at hread
      exact (Level.ofBudget_exact limit limit).depth_le hlast hder hread
    · cases hf
  · intro hd
    exact ⟨_, (parseWithin_eq_ok_iff htokens).mpr ⟨d, hd, nodes, hder, rfl⟩, rfl⟩

end Formulary
