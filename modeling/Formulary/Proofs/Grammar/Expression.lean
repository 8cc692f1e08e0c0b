import Formulary.Proofs.Grammar.Cursor

/-!
# Reading expressions

Each production of an expression reads exactly its phrases, given that the productions one level
further in do.

- `primary_reads`, `unary_reads` and `exponent_reads` are the tight layers.
- `leftChain_reads` is the one argument for all operators that group to the left.
- `comparison_reads` and `choice_reads` are the loose layers.
-/

namespace Formulary.Grammar

variable {ρ : ProviderId} {inner : Level} {n : Nat}

/-! ## Operands -/

/-- What the loop over arguments accepts is a list of arguments. -/
theorem arguments_sound {p : Production} (hp : Reads ρ p n .expression) :
    ∀ (fuel i : Nat) (r : List Token) (s : Scope) (nodes : List Node) (c : Cursor),
      r.length < fuel → arguments p fuel ⟨i, r, s⟩ = .ok (nodes, c) →
        ∃ d, d ≤ n ∧ ∃ ts rest, r = ts ++ rest ∧ Derives ρ d .arguments ts nodes rest
          ∧ c = ⟨i + ts.length, rest, s.visitAll nodes⟩ := by
  intro fuel
  induction fuel with
  | zero => intro i r s nodes c hfuel; exact absurd hfuel (Nat.not_lt_zero _)
  | succ fuel ih =>
      intro i r s nodes c hfuel h
      obtain ⟨⟨first, c₁⟩, hfirst, h⟩ := bind_eq_ok_iff.mp h
      obtain ⟨d, hd, ts, rest, rfl, hder, rfl⟩ := hp.sound hfirst
      dsimp only at h
      split at h
      · rename_i hcomma
        obtain ⟨k, us, rfl, hk⟩ := (Cursor.lexeme_eq_iff (by simp)).mp hcomma
        rw [Cursor.advance_cons hk (by simp)] at h
        obtain ⟨⟨others, c₂⟩, hothers, h⟩ := bind_eq_ok_iff.mp h
        have hlen : us.length < fuel := by
          simp only [List.length_append, List.length_cons] at hfuel
          omega
        obtain ⟨e, he, vs, rest', rfl, hder', rfl⟩ := ih _ _ _ _ _ hlen hothers
        cases h
        refine ⟨max (d + 1) e, by omega, ts ++ k :: vs, rest', by simp, .more hder hk hder', ?_⟩
        simp only [List.length_append, List.length_cons, Scope.visitAll_cons]
        rw [show i + (ts.length + (vs.length + 1)) = i + ts.length + 1 + vs.length by omega]
      · cases h
        exact ⟨d + 1, hd, ts, rest, rfl, .last hder, by simp⟩

/-- A list of arguments before a closing parenthesis is what the loop over arguments accepts. -/
theorem arguments_complete {p : Production} (hp : Reads ρ p n .expression) {q : Token}
    {rest : List Token} (hq : q.lexeme = .mark .closeParen) :
    ∀ (fuel i : Nat) (ts : List Token) (s : Scope) (nodes : List Node) (d : Nat),
      ts.length < fuel → d ≤ n → Derives ρ d .arguments ts nodes (q :: rest) →
        arguments p fuel ⟨i, ts ++ q :: rest, s⟩
          = .ok (nodes, ⟨i + ts.length, q :: rest, s.visitAll nodes⟩) := by
  intro fuel
  induction fuel with
  | zero => intro i ts s nodes d hfuel; exact absurd hfuel (Nat.not_lt_zero _)
  | succ fuel ih =>
      intro i ts s nodes d hfuel hd h
      rw [arguments]
      cases h with
      | last argument =>
          rw [hp.complete hd argument, ok_bind]
          simp [hq]
          rfl
      | @more d e k ts us node nodes _ argument comma others =>
          have hlen : us.length < fuel := by
            simp only [List.length_append, List.length_cons] at hfuel
            omega
          rw [List.append_assoc, List.cons_append, hp.complete (by omega) argument, ok_bind]
          simp only [Cursor.lexeme_cons, comma, if_true, Cursor.advance_cons comma (by simp)]
          rw [ih _ us _ nodes e hlen (by omega) others, ok_bind]
          simp only [List.length_append, List.length_cons, Scope.visitAll_cons]
          rw [show i + (ts.length + (us.length + 1)) = i + ts.length + 1 + us.length by omega]
          rfl

/-- What a call reads behind its opening parenthesis is the rest of a call. -/
theorem call_sound (hin : inner.Reads ρ n) {t p : Token} {name : Text} {index i : Nat}
    {r : List Token} {s : Scope} {node : Node} {c : Cursor} (ht : t.lexeme = .name name)
    (hp : p.Joins (.mark .openParen)) (h : call ρ inner name index ⟨i, r, s⟩ = .ok (node, c)) :
    ∃ d, d ≤ n ∧ ∃ ts rest, r = ts ++ rest ∧ Derives ρ d .primary (t :: p :: ts) [node] rest
      ∧ c = ⟨i + ts.length, rest, s.visit node⟩ := by
  obtain ⟨⟨nodes, c₁⟩, hargs, h⟩ := bind_eq_ok_iff.mp h
  obtain ⟨c₂, hclose, h⟩ := bind_eq_ok_iff.mp h
  obtain ⟨hcalls, rfl⟩ : Calls ρ name nodes node ∧ c₂ = c := by
    split at h
    · exact nomatch h
    · rename_i callee hcallee
      split at h
      · rename_i node' hcall
        cases h
        exact ⟨calls_iff.mpr ⟨callee, hcallee, hcall⟩, rfl⟩
      · exact nomatch h
  rw [argumentList] at hargs
  split at hargs
  · cases hargs
    obtain ⟨q, rest, rfl, hq, rfl⟩ := Cursor.expect_eq_ok_iff.mp hclose
    refine ⟨0, Nat.zero_le _, [q], rest, rfl, .callEmpty ht hp hq hcalls, ?_⟩
    rw [Scope.visit_calls hcalls]
    rfl
  · obtain ⟨d, hd, ts, rest, rfl, hder, rfl⟩ :=
      arguments_sound hin.expression _ _ _ _ _ _ (Nat.lt_succ_self _) hargs
    obtain ⟨q, rest, rfl, hq, rfl⟩ := Cursor.expect_eq_ok_iff.mp hclose
    refine ⟨d, hd, ts ++ [q], rest, by simp, .call ht hp hder hq hcalls, ?_⟩
    rw [Scope.visit_calls hcalls, List.length_append]
    rfl

/-- Behind its opening parenthesis, a call without arguments is read. -/
theorem call_complete_empty {q : Token} {name : Text} {index i : Nat} {rest : List Token}
    {s : Scope} {node : Node} (hq : q.lexeme = .mark .closeParen) (hcall : Calls ρ name [] node) :
    call ρ inner name index ⟨i, q :: rest, s⟩ = .ok (node, ⟨i + 1, rest, s.visit node⟩) := by
  obtain ⟨callee, hcallee, hnode⟩ := calls_iff.mp hcall
  rw [call, argumentList, Cursor.lexeme_cons, if_pos hq, ok_bind]
  dsimp only
  rw [Cursor.expect_eq_ok_iff.mpr ⟨q, rest, rfl, hq, rfl⟩, ok_bind, hcallee]
  simp only [hnode]
  rw [Scope.visit_calls hcall, Scope.visitAll_nil]

/-- A call that has arguments reads them, with more steps to go than there are tokens. -/
theorem argumentList_eq {d i : Nat} {ts rest : List Token} {s : Scope} {nodes : List Node}
    (h : Derives ρ d .arguments ts nodes rest) :
    ∃ fuel, ts.length < fuel ∧ argumentList inner ⟨i, ts ++ rest, s⟩
      = arguments inner.expression fuel ⟨i, ts ++ rest, s⟩ := by
  obtain ⟨t, us, rfl, ht⟩ := h.opens trivial
  have hopen : t.lexeme ≠ .mark .closeParen := by
    intro h
    rw [h] at ht
    exact nomatch ht
  refine ⟨(t :: us ++ rest).length + 1, ?_, ?_⟩
  · rw [List.length_append]
    omega
  · rw [argumentList, List.cons_append, Cursor.lexeme_cons, if_neg hopen]

/-- Behind its opening parenthesis, a call with arguments is read. -/
theorem call_complete (hin : inner.Reads ρ n) {q : Token} {name : Text} {index i d : Nat}
    {ts rest : List Token} {s : Scope} {nodes : List Node} {node : Node} (hd : d ≤ n)
    (hder : Derives ρ d .arguments ts nodes (q :: rest)) (hq : q.lexeme = .mark .closeParen)
    (hcall : Calls ρ name nodes node) :
    call ρ inner name index ⟨i, ts ++ q :: rest, s⟩
      = .ok (node, ⟨i + ts.length + 1, rest, s.visit node⟩) := by
  obtain ⟨callee, hcallee, hnode⟩ := calls_iff.mp hcall
  obtain ⟨fuel, hfuel, heq⟩ := argumentList_eq hder
  rw [call, heq, arguments_complete hin.expression hq _ _ _ _ _ _ hfuel hd hder, ok_bind]
  dsimp only
  rw [Cursor.expect_eq_ok_iff.mpr ⟨q, rest, rfl, hq, rfl⟩, ok_bind, hcallee]
  simp only [hnode]
  rw [Scope.visit_calls hcall]

section Forms

variable {t p : Token} {name : Text} {i : Nat} {r : List Token} {s : Scope}

/-- The form of an operand in parentheses. -/
theorem primary_group (ht : t.lexeme = .mark .openParen) :
    primary ρ inner ⟨i, t :: r, s⟩ = (do
      let (node, c) ← inner.expression ⟨i + 1, r, s⟩
      let c ← c.expect .closeParen .unclosedGroup
      return (node, c)) := by
  rw [primary, Cursor.lexeme_cons, ht]
  dsimp only
  rw [Cursor.advance_cons ht (by simp)]

theorem primary_number {digits : Text} (ht : t.lexeme = .number digits) :
    primary ρ inner ⟨i, t :: r, s⟩ = .ok (.constant (Number.ofNumeral digits), ⟨i + 1, r, s⟩) := by
  rw [primary, Cursor.lexeme_cons, ht]
  dsimp only
  rw [Cursor.advance_cons ht (by simp)]

/-- A name that no parenthesis follows on its line is read. -/
theorem primary_read (ht : t.lexeme = .name name) (hends : ¬ Continues r (.mark .openParen)) :
    primary ρ inner ⟨i, t :: r, s⟩ = .ok (.read name, ⟨i + 1, r, s.visit (.read name)⟩) := by
  rw [primary, Cursor.lexeme_cons, ht]
  dsimp only
  rw [Cursor.advance_cons ht (by simp), if_neg (fun h => hends (Cursor.joinsWith_iff.mp h)),
    Scope.visit]
  rfl

/-- A name that a parenthesis follows on its line is called. -/
theorem primary_call (ht : t.lexeme = .name name) (hp : p.Joins (.mark .openParen)) :
    primary ρ inner ⟨i, t :: p :: r, s⟩ = call ρ inner name i ⟨i + 1 + 1, r, s⟩ := by
  rw [primary, Cursor.lexeme_cons, ht]
  dsimp only
  rw [Cursor.advance_cons ht (by simp), Cursor.token_cons, if_pos (Token.joinsWith_iff.mpr hp),
    Cursor.advance_cons hp.1 (by simp)]

end Forms

/-- What is read from an opening parenthesis is an expression in parentheses. -/
theorem group_sound (hin : inner.Reads ρ n) {p : Token} {i : Nat} {r : List Token} {s : Scope}
    {node : Node} {c : Cursor} (hp : p.lexeme = .mark .openParen)
    (h : primary ρ inner ⟨i, p :: r, s⟩ = .ok (node, c)) :
    ∃ d, d ≤ n ∧ ∃ ts rest, p :: r = ts ++ rest ∧ Derives ρ d .primary ts [node] rest
      ∧ c = ⟨i + ts.length, rest, s.visit node⟩ := by
  rw [primary_group hp] at h
  obtain ⟨⟨node', c₁⟩, hexpr, h⟩ := bind_eq_ok_iff.mp h
  obtain ⟨d, hd, ts, rest, rfl, hder, rfl⟩ := hin.expression.sound hexpr
  obtain ⟨c₂, hclose, h⟩ := bind_eq_ok_iff.mp h
  obtain ⟨q, rest, rfl, hq, rfl⟩ := Cursor.expect_eq_ok_iff.mp hclose
  cases h
  refine ⟨d + 1, hd, p :: (ts ++ [q]), rest, by simp, .group hp hder hq, ?_⟩
  simp only [List.length_append, List.length_cons, List.length_nil]
  rw [show i + (ts.length + (0 + 1) + 1) = i + 1 + ts.length + 1 by omega]

/-- An expression in parentheses is read. -/
theorem group_complete (hin : inner.Reads ρ n) {p q : Token} {i d : Nat} {ts rest : List Token}
    {s : Scope} {node : Node} (hp : p.lexeme = .mark .openParen) (hd : d < n)
    (hder : Derives ρ d .expression ts [node] (q :: rest)) (hq : q.lexeme = .mark .closeParen) :
    primary ρ inner ⟨i, p :: (ts ++ q :: rest), s⟩
      = .ok (node, ⟨i + (ts.length + 1 + 1), rest, s.visit node⟩) := by
  rw [primary_group hp, hin.expression.complete hd hder, ok_bind]
  dsimp only
  rw [Cursor.expect_eq_ok_iff.mpr ⟨q, rest, rfl, hq, rfl⟩, ok_bind,
    show i + (ts.length + 1 + 1) = i + 1 + ts.length + 1 by omega]
  rfl

/-- A name is called, or it is read. -/
theorem name_sound (hin : inner.Reads ρ n) {t : Token} {name : Text} {i : Nat} {r : List Token}
    {s : Scope} {node : Node} {c : Cursor} (ht : t.lexeme = .name name)
    (h : primary ρ inner ⟨i, t :: r, s⟩ = .ok (node, c)) :
    ∃ d, d ≤ n ∧ ∃ ts rest, t :: r = ts ++ rest ∧ Derives ρ d .primary ts [node] rest
      ∧ c = ⟨i + ts.length, rest, s.visit node⟩ := by
  by_cases hopen : Continues r (.mark .openParen)
  · obtain ⟨p, r, rfl, hp⟩ := hopen.cons_of
    rw [primary_call ht hp] at h
    obtain ⟨d, hd, ts, rest, rfl, hder, rfl⟩ := call_sound hin ht hp h
    refine ⟨d, hd, t :: p :: ts, rest, rfl, hder, ?_⟩
    simp only [List.length_cons]
    rw [show i + (ts.length + 1 + 1) = i + 1 + 1 + ts.length by omega]
  · rw [primary_read ht hopen] at h
    cases h
    exact ⟨0, Nat.zero_le n, [t], r, rfl, .read ht hopen, rfl⟩

/-- What is read as an operand is one; its form is told by its first token. -/
theorem primary_sound (hin : inner.Reads ρ n) {i : Nat} {r : List Token} {s : Scope} {node : Node}
    {c : Cursor} (h : primary ρ inner ⟨i, r, s⟩ = .ok (node, c)) :
    ∃ d, d ≤ n ∧ ∃ ts rest, r = ts ++ rest ∧ Derives ρ d .primary ts [node] rest
      ∧ c = ⟨i + ts.length, rest, s.visit node⟩ := by
  cases r with
  | nil => cases h
  | cons t r =>
      have hlexeme := h
      rw [primary, Cursor.lexeme_cons] at hlexeme
      split at hlexeme
      · rename_i ht
        exact group_sound hin ht h
      · rename_i digits ht
        rw [primary_number ht] at h
        cases h
        exact ⟨0, Nat.zero_le n, [t], r, rfl, .number ht, by rw [Scope.visit]; rfl⟩
      · rename_i name ht
        exact name_sound hin ht h
      · cases hlexeme
      · cases hlexeme

/-- Every form of an operand is read. -/
theorem primary_complete (hin : inner.Reads ρ n) {i d : Nat} {s : Scope} {ts rest : List Token}
    {node : Node} (hd : d < n + 1) (h : Derives ρ d .primary ts [node] rest) :
    primary ρ inner ⟨i, ts ++ rest, s⟩ = .ok (node, ⟨i + ts.length, rest, s.visit node⟩) := by
  cases h with
  | group opening body closing =>
      simp only [List.cons_append, List.append_assoc, List.nil_append, List.length_cons,
        List.length_append, List.length_nil]
      exact group_complete hin opening (by omega) body closing
  | number literal =>
      rw [Scope.visit]
      exact primary_number literal
  | read target ends => exact primary_read target ends
  | callEmpty callee opening closing call =>
      exact (primary_call callee opening).trans (call_complete_empty closing call)
  | @call _ _ _ _ ts _ _ _ _ callee opening given closing call =>
      simp only [List.cons_append, List.append_assoc, List.nil_append, List.length_cons,
        List.length_append, List.length_nil]
      rw [primary_call callee opening, call_complete hin (by omega) given closing call,
        show i + (ts.length + (0 + 1) + 1 + 1) = i + 1 + 1 + ts.length + 1 by omega]

/-- Operands are read exactly; what stands in their parentheses nests one level deeper. -/
theorem primary_reads (hin : inner.Reads ρ n) : Reads ρ (primary ρ inner) (n + 1) .primary where
  sound := by
    intro i r s node c h
    obtain ⟨d, hd, hrest⟩ := primary_sound hin h
    exact ⟨d, Nat.lt_succ_of_le hd, hrest⟩
  complete := primary_complete hin

/-! ## Signs and powers -/

/-- An operand does not begin with an operator. -/
theorem Derives.primary_opens {d : Nat} {ts rest : List Token} {nodes : List Node}
    (h : Derives ρ d .primary ts nodes rest) :
    ∃ t us, ts = t :: us ∧ ∀ op, t.lexeme ≠ .operator op := by
  cases h with
  | group opening => exact ⟨_, _, rfl, fun op => by rw [opening]; exact Lexeme.noConfusion⟩
  | number literal => exact ⟨_, _, rfl, fun op => by rw [literal]; exact Lexeme.noConfusion⟩
  | read target => exact ⟨_, _, rfl, fun op => by rw [target]; exact Lexeme.noConfusion⟩
  | callEmpty callee => exact ⟨_, _, rfl, fun op => by rw [callee]; exact Lexeme.noConfusion⟩
  | call callee => exact ⟨_, _, rfl, fun op => by rw [callee]; exact Lexeme.noConfusion⟩

/-- A sign adds no name to a scope. -/
theorem Signs.visit {op : Operator} {build : Node → Node} (h : Signs op build) (s : Scope)
    (node : Node) : s.visit (build node) = s.visit node := by
  cases h with
  | minus | not => rw [Scope.visit]
  | plus => rfl

/-- Behind a sign an operand is taken from the level. -/
theorem unary_signed {op : Operator} {build : Node → Node} (h : Signs op build) {t : Token}
    (ht : t.lexeme = .operator op) (i : Nat) (r : List Token) (s : Scope) :
    unary ρ inner ⟨i, t :: r, s⟩
      = inner.unary ⟨i + 1, r, s⟩ >>= fun read => .ok (build read.1, read.2) := by
  rw [unary, Cursor.lexeme_cons, ht, Cursor.advance_cons ht (by simp)]
  cases h with
  | minus | not => rfl
  | plus => exact (bind_pure _).symm

/-- What begins with no sign is read as a primary. -/
theorem unary_unsigned {t : Token} (h : ∀ op build, Signs op build → t.lexeme ≠ .operator op)
    (i : Nat) (r : List Token) (s : Scope) :
    unary ρ inner ⟨i, t :: r, s⟩ = primary ρ inner ⟨i, t :: r, s⟩ := by
  rw [unary, Cursor.lexeme_cons]
  split
  · rename_i heq; exact absurd heq (h _ _ .minus)
  · rename_i heq; exact absurd heq (h _ _ .plus)
  · rename_i heq; exact absurd heq (h _ _ .not)
  · rfl

/-- Operands under signs are read exactly; each sign nests one level deeper. -/
theorem unary_reads (hin : inner.Reads ρ n) : Reads ρ (unary ρ inner) (n + 1) .unary where
  sound := by
    intro i r s node c h
    cases r with
    | nil => exact nomatch h
    | cons t r =>
        by_cases hsign : ∃ op build, Signs op build ∧ t.lexeme = .operator op
        · obtain ⟨op, build, kind, ht⟩ := hsign
          rw [unary_signed kind ht] at h
          obtain ⟨⟨operand, c₁⟩, hop, h⟩ := bind_eq_ok_iff.mp h
          obtain ⟨d, hd, ts, rest, rfl, hder, rfl⟩ := hin.unary.sound hop
          cases h
          refine ⟨d + 1, by omega, t :: ts, rest, rfl, .signed kind ht hder, ?_⟩
          rw [kind.visit, List.length_cons, Nat.add_right_comm, Nat.add_assoc]
        · rw [unary_unsigned fun op build kind ht => hsign ⟨op, build, kind, ht⟩] at h
          obtain ⟨d, hd, ts, rest, hr, hder, rfl⟩ := (primary_reads hin).sound h
          exact ⟨d, hd, ts, rest, hr, .unsigned hder, rfl⟩
  complete := by
    intro i s d ts rest node hd h
    cases h with
    | unsigned value =>
        obtain ⟨t, us, rfl, ht⟩ := value.primary_opens
        rw [List.cons_append, unary_unsigned fun op _ _ => ht op]
        exact (primary_reads hin).complete hd value
    | @signed d o ts op build node _ kind sign value =>
        rw [List.cons_append, unary_signed kind sign, hin.unary.complete (by omega) value, ok_bind,
          kind.visit, List.length_cons, Nat.add_right_comm, Nat.add_assoc]

/-- Powers are read exactly; their right sides nest one level deeper. -/
theorem exponent_reads (hin : inner.Reads ρ n) : Reads ρ (exponent ρ inner) (n + 1) .exponent where
  sound := by
    intro i r s node c h
    obtain ⟨⟨left, c₁⟩, hbase, h⟩ := bind_eq_ok_iff.mp h
    obtain ⟨d, hd, ts, rest, rfl, hder, rfl⟩ := (unary_reads hin).sound hbase
    dsimp only at h
    split at h
    · rename_i hjoin
      obtain ⟨o, us, rfl, ho⟩ := (Cursor.joining?_iff.mp hjoin).cons_of
      rw [Cursor.advance_cons ho.1 (by simp)] at h
      obtain ⟨⟨right, c₂⟩, hpower, h⟩ := bind_eq_ok_iff.mp h
      obtain ⟨e, he, us, rest, rfl, hder', rfl⟩ := hin.exponent.sound hpower
      cases h
      refine ⟨max d (e + 1), by omega, ts ++ o :: us, rest, by simp, .power hder ho hder', ?_⟩
      simp only [List.length_append, List.length_cons, Scope.visit]
      rw [show i + (ts.length + (us.length + 1)) = i + ts.length + 1 + us.length by omega]
    · rename_i hjoin
      cases h
      exact ⟨d, hd, ts, rest, rfl, .base hder (fun hc => hjoin (Cursor.joining?_iff.mpr hc)), rfl⟩
  complete := by
    intro i s d ts rest node hd h
    rw [exponent]
    cases h with
    | base value ends =>
        rw [(unary_reads hin).complete hd value, ok_bind]
        dsimp only
        rw [if_neg (fun h => ends (Cursor.joining?_iff.mp h))]
        rfl
    | @power d e o ts us left right _ raised sign power =>
        rw [List.append_assoc, List.cons_append,
          (unary_reads hin).complete (by omega) raised, ok_bind]
        dsimp only
        rw [Cursor.token_cons, if_pos (Token.joining?_eq_some_iff.mpr sign),
          Cursor.advance_cons sign.1 (by simp), hin.exponent.complete (by omega) power, ok_bind]
        simp only [List.length_append, List.length_cons, Scope.visit]
        rw [show i + (ts.length + (us.length + 1)) = i + ts.length + 1 + us.length by omega]
        rfl

/-! ## Operators that group to the left -/

/-- The names of a chain are those of its operands in turn. -/
theorem Layer.Builds.visit {l : Layer} {op : Operator} {build : Node → Node → Node}
    (h : l.Builds op build) (s : Scope) (left right : Node) :
    s.visit (build left right) = (s.visit left).visit right := by
  cases h <;> rw [Scope.visit]

/-- The tokens go on with a layer exactly if the next one is an operator that builds there. -/
theorem continuesLayer_iff {i : Nat} {r : List Token} {s : Scope} {l : Layer} :
    ContinuesLayer r l
      ↔ ∃ build, (Cursor.token ⟨i, r, s⟩).joining?.bind l.build? = some build := by
  constructor
  · rintro ⟨op, build, hb, hc⟩
    exact ⟨build, Cursor.bind_joining?_iff.mpr ⟨op, Layer.build?_eq_some_iff.mpr hb, hc⟩⟩
  · rintro ⟨build, h⟩
    obtain ⟨op, hb, hc⟩ := Cursor.bind_joining?_iff.mp h
    exact ⟨op, build, Layer.build?_eq_some_iff.mp hb, hc⟩

/-- From the operands read so far, the loop over operators goes on to a whole chain. The bound on
its steps is never reached, since every step takes a token. -/
theorem chain_sound {p : Production} {l : Layer} (hp : Reads ρ p n l.operand) :
    ∀ (fuel d i : Nat) (ts₀ r : List Token) (s : Scope) (left node : Node) (c : Cursor),
      r.length < fuel → d < n → Derives ρ d (.run l) ts₀ [left] r →
      chain p l.build? fuel left ⟨i, r, s.visit left⟩ = .ok (node, c) →
        ∃ e, e < n ∧ ∃ ts rest, r = ts ++ rest ∧ Derives ρ e (.layer l) (ts₀ ++ ts) [node] rest
          ∧ c = ⟨i + ts.length, rest, s.visit node⟩ := by
  intro fuel
  induction fuel with
  | zero => intro d i ts₀ r s left node c hfuel; exact absurd hfuel (Nat.not_lt_zero _)
  | succ fuel ih =>
      intro d i ts₀ r s left node c hfuel hd hrun h
      rw [chain] at h
      split at h
      · rename_i hnone
        cases h
        refine ⟨d, hd, [], r, rfl, ?_, rfl⟩
        rw [List.append_nil]
        refine .layer hrun (fun hc => ?_)
        obtain ⟨build, hb⟩ := continuesLayer_iff.mp hc
        rw [hnone] at hb
        exact nomatch hb
      · rename_i build hsome
        obtain ⟨op, hb, hc⟩ := Cursor.bind_joining?_iff.mp hsome
        have hbuilds := Layer.build?_eq_some_iff.mp hb
        obtain ⟨o, us, rfl, ho⟩ := hc.cons_of
        rw [Cursor.advance_cons ho.1 (by simp)] at h
        obtain ⟨⟨right, c₁⟩, hright, h⟩ := bind_eq_ok_iff.mp h
        obtain ⟨e, he, us, rest, rfl, hder, rfl⟩ := hp.sound hright
        rw [← hbuilds.visit] at h
        have hlen : rest.length < fuel := by
          simp only [List.length_cons, List.length_append] at hfuel
          omega
        obtain ⟨e', he', vs, rest, rfl, hder', rfl⟩ :=
          ih (max d e) _ _ _ s _ _ _ hlen (by omega) (.next hrun hbuilds ho hder) h
        refine ⟨e', he', o :: (us ++ vs), rest, by simp, ?_, ?_⟩
        · rw [← List.cons_append, ← List.append_assoc]
          exact hder'
        · simp only [List.length_cons, List.length_append]
          rw [show i + (us.length + vs.length + 1) = i + 1 + us.length + vs.length by omega]

/-- A run of operands brings the loop over operators to the tree of the run. -/
theorem leftChain_eq_chain {p : Production} {l : Layer} (hp : Reads ρ p n l.operand) {d : Nat}
    {k : Category} {ts rest : List Token} {nodes : List Node} (h : Derives ρ d k ts nodes rest)
    (hk : k = .run l) (hd : d < n) {left : Node} (hleft : nodes = [left]) (i : Nat) (s : Scope) :
    ∃ fuel, rest.length < fuel ∧ leftChain p l.build? ⟨i, ts ++ rest, s⟩
      = chain p l.build? fuel left ⟨i + ts.length, rest, s.visit left⟩ := by
  induction h generalizing left with
  | first operand =>
      cases hk
      cases hleft
      refine ⟨_, Nat.lt_succ_self _, ?_⟩
      rw [leftChain, hp.complete hd operand]
      rfl
  | @next d e l' o ts us op build left' right rest operands kind sign operand ih _ =>
      cases hk
      cases hleft
      obtain ⟨fuel, hfuel, heq⟩ := ih rfl (by omega) rfl
      rw [List.append_assoc, List.cons_append, heq]
      cases fuel with
      | zero => exact absurd hfuel (Nat.not_lt_zero _)
      | succ fuel =>
          refine ⟨fuel, ?_, ?_⟩
          · simp only [List.length_cons, List.length_append] at hfuel
            omega
          · rw [chain, Cursor.bind_joining?_iff.mpr
              ⟨op, Layer.build?_eq_some_iff.mpr kind, continues_cons.mpr sign⟩]
            dsimp only
            rw [Cursor.advance_cons sign.1 (by simp), hp.complete (by omega) operand, ok_bind]
            dsimp only
            rw [kind.visit, List.length_append, List.length_cons]
            rw [show i + (ts.length + (us.length + 1)) = i + ts.length + 1 + us.length by omega]
  | _ => cases hk

/-- A chain of operands is read up to the last that can be joined on, and groups to the left. -/
theorem leftChain_reads {p : Production} {l : Layer} (hp : Reads ρ p n l.operand) :
    Reads ρ (leftChain p l.build?) n (.layer l) where
  sound := by
    intro i r s node c h
    obtain ⟨⟨left, c₁⟩, hleft, h⟩ := bind_eq_ok_iff.mp h
    obtain ⟨d, hd, ts, rest, rfl, hder, rfl⟩ := hp.sound hleft
    obtain ⟨e, he, us, rest, rfl, hder', rfl⟩ :=
      chain_sound hp _ _ _ _ _ _ _ _ _ (Nat.lt_succ_self _) hd (.first hder) h
    refine ⟨e, he, ts ++ us, rest, by simp, hder', ?_⟩
    rw [List.length_append, Nat.add_assoc]
  complete := by
    intro i s d ts rest node hd h
    cases h with
    | layer operands ends =>
        obtain ⟨fuel, hfuel, heq⟩ := leftChain_eq_chain hp operands rfl hd rfl i s
        rw [heq]
        cases fuel with
        | zero => exact absurd hfuel (Nat.not_lt_zero _)
        | succ fuel =>
            rw [chain]
            split
            · rfl
            · rename_i build hsome
              exact absurd (continuesLayer_iff.mpr ⟨build, hsome⟩) ends

theorem multiplicative_reads (hin : inner.Reads ρ n) :
    Reads ρ (multiplicative ρ inner) (n + 1) (.layer .multiplicative) :=
  leftChain_reads (l := .multiplicative) (exponent_reads hin)

theorem additive_reads (hin : inner.Reads ρ n) :
    Reads ρ (additive ρ inner) (n + 1) (.layer .additive) :=
  leftChain_reads (l := .additive) (multiplicative_reads hin)

/-! ## Comparisons and choices -/

/-- The tokens go on with a comparison exactly if the next one is an operator that compares. -/
theorem continuesComparison_iff {i : Nat} {r : List Token} {s : Scope} :
    ContinuesComparison r
      ↔ ∃ build, (Cursor.token ⟨i, r, s⟩).joining?.bind Operator.comparison? = some build := by
  constructor
  · rintro ⟨op, cmp, hcmp, hc⟩
    exact ⟨_, Cursor.bind_joining?_iff.mpr
      ⟨op, comparison?_eq_some_iff.mpr ⟨cmp, hcmp, rfl⟩, hc⟩⟩
  · rintro ⟨build, h⟩
    obtain ⟨op, hb, hc⟩ := Cursor.bind_joining?_iff.mp h
    obtain ⟨cmp, hcmp, -⟩ := comparison?_eq_some_iff.mp hb
    exact ⟨op, cmp, hcmp, hc⟩

/-- Comparisons are read exactly; what follows the second sum is left alone. -/
theorem comparison_reads (hin : inner.Reads ρ n) :
    Reads ρ (comparison ρ inner) (n + 1) .comparison where
  sound := by
    intro i r s node c h
    obtain ⟨⟨left, c₁⟩, hleft, h⟩ := bind_eq_ok_iff.mp h
    obtain ⟨d, hd, ts, rest, rfl, hder, rfl⟩ := (additive_reads hin).sound hleft
    dsimp only at h
    split at h
    · rename_i hnone
      cases h
      refine ⟨d, hd, ts, rest, rfl, .uncompared hder (fun hc => ?_), rfl⟩
      obtain ⟨build, hb⟩ := continuesComparison_iff.mp hc
      rw [hnone] at hb
      exact nomatch hb
    · rename_i build hsome
      obtain ⟨op, hb, hc⟩ := Cursor.bind_joining?_iff.mp hsome
      obtain ⟨cmp, hcmp, rfl⟩ := comparison?_eq_some_iff.mp hb
      obtain ⟨o, us, rfl, ho⟩ := hc.cons_of
      rw [Cursor.advance_cons ho.1 (by simp)] at h
      obtain ⟨⟨right, c₂⟩, hright, h⟩ := bind_eq_ok_iff.mp h
      obtain ⟨e, he, us, rest, rfl, hder', rfl⟩ := (additive_reads hin).sound hright
      cases h
      refine ⟨max d e, by omega, ts ++ o :: us, rest, by simp, .compared hder hcmp ho hder', ?_⟩
      simp only [List.length_append, List.length_cons, Scope.visit]
      rw [show i + (ts.length + (us.length + 1)) = i + ts.length + 1 + us.length by omega]
  complete := by
    intro i s d ts rest node hd h
    rw [comparison]
    cases h with
    | uncompared value ends =>
        rw [(additive_reads hin).complete hd value, ok_bind]
        dsimp only
        split
        · rfl
        · rename_i build hsome
          exact absurd (continuesComparison_iff.mpr ⟨build, hsome⟩) ends
    | @compared d e o ts us op cmp left right _ smaller kind sign larger =>
        rw [List.append_assoc, List.cons_append,
          (additive_reads hin).complete (by omega) smaller, ok_bind]
        dsimp only
        rw [Cursor.bind_joining?_iff.mpr
          ⟨op, comparison?_eq_some_iff.mpr ⟨cmp, kind, rfl⟩, continues_cons.mpr sign⟩]
        dsimp only
        rw [Cursor.advance_cons sign.1 (by simp), (additive_reads hin).complete (by omega) larger,
          ok_bind]
        simp only [List.length_append, List.length_cons, Scope.visit]
        rw [show i + (ts.length + (us.length + 1)) = i + ts.length + 1 + us.length by omega]
        rfl

theorem conjunction_reads (hin : inner.Reads ρ n) :
    Reads ρ (conjunction ρ inner) (n + 1) (.layer .conjunction) :=
  leftChain_reads (l := .conjunction) (comparison_reads hin)

theorem disjunction_reads (hin : inner.Reads ρ n) :
    Reads ρ (disjunction ρ inner) (n + 1) (.layer .disjunction) :=
  leftChain_reads (l := .disjunction) (conjunction_reads hin)

/-- Choices are read exactly; their second values nest one level deeper. -/
theorem choice_reads (hin : inner.Reads ρ n) : Reads ρ (choice ρ inner) (n + 1) .expression where
  sound := by
    intro i r s node c h
    obtain ⟨⟨condition, c₁⟩, htest, h⟩ := bind_eq_ok_iff.mp h
    obtain ⟨d, hd, ts, rest, rfl, hder, rfl⟩ := (disjunction_reads hin).sound htest
    dsimp only at h
    split at h
    · rename_i hjoin
      obtain ⟨q, us, rfl, hq⟩ := (Cursor.joinsWith_iff.mp hjoin).cons_of
      rw [Cursor.advance_cons hq.1 (by simp)] at h
      obtain ⟨⟨whenTrue, c₂⟩, hleft, h⟩ := bind_eq_ok_iff.mp h
      obtain ⟨e, he, us, rest, rfl, hder', rfl⟩ := (disjunction_reads hin).sound hleft
      obtain ⟨c₃, hcolon, h⟩ := bind_eq_ok_iff.mp h
      obtain ⟨k, vs, rfl, hk, rfl⟩ := Cursor.expect_eq_ok_iff.mp hcolon
      obtain ⟨⟨whenFalse, c₄⟩, hright, h⟩ := bind_eq_ok_iff.mp h
      obtain ⟨f, hf, vs, rest, rfl, hder'', rfl⟩ := hin.expression.sound hright
      cases h
      refine ⟨max d (max e (f + 1)), by omega, ts ++ q :: (us ++ k :: vs), rest, by simp,
        .choice hder hq hder' hk hder'', ?_⟩
      simp only [List.length_append, List.length_cons, Scope.visit]
      rw [show i + (ts.length + (us.length + (vs.length + 1) + 1))
        = i + ts.length + 1 + us.length + 1 + vs.length by omega]
    · rename_i hjoin
      cases h
      exact ⟨d, hd, ts, rest, rfl, .plain hder (fun hc => hjoin (Cursor.joinsWith_iff.mpr hc)),
        rfl⟩
  complete := by
    intro i s d ts rest node hd h
    rw [choice]
    cases h with
    | plain value ends =>
        rw [(disjunction_reads hin).complete hd value, ok_bind]
        dsimp only
        rw [if_neg (fun h => ends (Cursor.joinsWith_iff.mp h))]
        rfl
    | @choice d e f q k ts us vs condition whenTrue whenFalse _ test question left colon right =>
        simp only [List.append_assoc, List.cons_append]
        rw [(disjunction_reads hin).complete (by omega) test, ok_bind]
        dsimp only
        rw [Cursor.token_cons, if_pos (Token.joinsWith_iff.mpr question),
          Cursor.advance_cons question.1 (by simp),
          (disjunction_reads hin).complete (by omega) left, ok_bind]
        dsimp only
        rw [Cursor.expect_eq_ok_iff.mpr ⟨k, _, rfl, colon, rfl⟩, ok_bind,
          hin.expression.complete (by omega) right, ok_bind]
        simp only [List.length_append, List.length_cons, Scope.visit]
        rw [show i + (ts.length + (us.length + (vs.length + 1) + 1))
          = i + ts.length + 1 + us.length + 1 + vs.length by omega]
        rfl

end Formulary.Grammar
