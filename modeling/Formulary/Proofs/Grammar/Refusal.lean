import Formulary.Proofs.Grammar.Loops

/-!
# Refusals that nothing behind them repairs

A token that is refused is refused for what stands before it. So two lists of tokens that are the
same up to this token are refused alike, whatever follows.

Two readers go through the two lists side by side. As long as both are in front of the token at `i`
or before it, they see the same. Once the first is past it, nothing can be refused there any more,
so that the other one does not count.

- `Abreast` is how the readers stand, and `Alike` is what they come to. `Alike.bind` goes on with
  both of them.
- `Steady` productions keep the readers alike. A statement looks at two tokens in two places, which
  is why `Leaves` and `Ends` count a reader as past the token when it is still in front of it.
- `readProgram_eq_error_of_take` is the statement about whole lists of tokens.
-/

namespace Formulary

/-- The causes that show at the first token with which no formula goes on. A call is judged when its
arguments are read, and an excess of nesting depends on the limit. -/
def FaultKind.isSyntactic : FaultKind → Bool
  | .unknownFunction | .arityMismatch | .expressionTooComplex => false
  | _ => true

namespace Grammar

/-! ## Two readers -/

/-- Two cursors in front of the same tokens, up to the token at `i`. -/
structure Agrees (i : Nat) (c c' : Cursor) : Prop where
  index : c'.index = c.index
  scope : c'.scope = c.scope
  inside : c.index ≤ i
  tokens : c'.rest.take (i + 1 - c.index) = c.rest.take (i + 1 - c.index)

/-- The cursor has passed the token at `i`. -/
def Past (i : Nat) (c : Cursor) : Prop := i < c.index

/-- The cursor will have passed the token at `i` when anything is read: a name is always taken. -/
def Leaves (i : Nat) (c : Cursor) : Prop :=
  Past i c ∨ c.index = i ∧ ∃ name, c.lexeme = .name name

/-- The cursor will have passed the token at `i` when the next statement begins: semicolons are
skipped. -/
def Ends (i : Nat) (c : Cursor) : Prop := Past i c ∨ c.index = i ∧ c.lexeme = .mark .semicolon

/-- How two readers stand: if `along`, they agree up to the token at `i`; else the first is past it,
and stands for the second as well. -/
def Abreast (i : Nat) (past : Cursor → Prop) : (along : Bool) → Cursor → Cursor → Prop
  | true, c, c' => Agrees i c c'
  | false, c, c' => past c ∧ c' = c

/-- Two readers that agree, unless the first is past the token at `i`. -/
def Near (i : Nat) (along : Bool) (c c' : Cursor) : Prop :=
  (along = true ∧ Agrees i c c') ∨ Past i c

/-- What two readers come to: they are alike, unless the first is past the token at `i`, or refuses
behind it or for no cause of syntax. -/
inductive Alike (i : Nat) (past : Cursor → Prop) (along : Bool) {α : Type} :
    Except Failure (α × Cursor) → Except Failure (α × Cursor) → Prop where
  | past {a : α} {c : Cursor} {x : Except Failure (α × Cursor)} (h : past c) :
      Alike i past along (.ok (a, c)) x
  | ok {a : α} {c c' : Cursor} (h : along = true) (agrees : Agrees i c c') :
      Alike i past along (.ok (a, c)) (.ok (a, c'))
  | late {e : Failure} {x : Except Failure (α × Cursor)}
      (h : e.fault.kind.isSyntactic = true → i < e.index) : Alike i past along (.error e) x
  | error {e : Failure} (h : along = true) : Alike i past along (.error e) (.error e)

variable {i : Nat} {along : Bool} {c c' : Cursor} {past past' : Cursor → Prop} {α β : Type}

namespace Agrees

/-- Readers that agree are both at the end of their lists, or in front of one token, behind which
they agree up to the token at `i`. -/
theorem rest (h : Agrees i c c') :
    (c.rest = [] ∧ c'.rest = []) ∨ ∃ t r r', c.rest = t :: r ∧ c'.rest = t :: r'
      ∧ r'.take (i - c.index) = r.take (i - c.index) := by
  have htokens := h.tokens
  rw [Nat.sub_add_comm h.inside] at htokens
  cases hr : c.rest with
  | nil =>
      cases hr' : c'.rest with
      | nil => exact .inl ⟨rfl, rfl⟩
      | cons t' r' =>
          rw [hr, hr'] at htokens
          cases htokens
  | cons t r =>
      cases hr' : c'.rest with
      | nil =>
          rw [hr, hr'] at htokens
          cases htokens
      | cons t' r' =>
          rw [hr, hr', List.take_succ_cons, List.take_succ_cons] at htokens
          obtain ⟨rfl, htake⟩ := List.cons.inj htokens
          exact .inr ⟨t', r, r', rfl, rfl, htake⟩

/-- Readers that agree see the same token. -/
theorem token (h : Agrees i c c') : c'.token = c.token := by
  rw [Cursor.token, Cursor.token]
  rcases h.rest with ⟨hr, hr'⟩ | ⟨t, r, r', hr, hr', -⟩
  · rw [hr, hr']
  · rw [hr, hr']
    rfl

/-- Before the token at `i` they see the same token behind the next one as well. -/
theorem following (h : Agrees i c c') (hlt : c.index < i) : c'.following = c.following := by
  rw [Cursor.following, Cursor.following]
  rcases h.rest with ⟨hr, hr'⟩ | ⟨t, r, r', hr, hr', htake⟩
  · rw [hr, hr']
  · obtain ⟨n, hn⟩ : ∃ n, i - c.index = n + 1 := ⟨i - c.index - 1, by omega⟩
    rw [hn] at htake
    rw [hr, hr', List.tail_cons, List.tail_cons]
    cases r <;> cases r' <;> simp_all

/-- A step keeps readers together, or takes the first past the token. -/
theorem advance (h : Agrees i c c') : Near i true c.advance c'.advance := by
  rw [Cursor.advance, Cursor.advance]
  rcases h.rest with ⟨hr, hr'⟩ | ⟨t, r, r', hr, hr', htake⟩
  · rw [hr, hr']
    exact .inl ⟨rfl, h⟩
  · rw [hr, hr']
    dsimp only
    by_cases hend : t.lexeme = .endOfText
    · rw [if_pos hend, if_pos hend]
      exact .inl ⟨rfl, h⟩
    · rw [if_neg hend, if_neg hend]
      by_cases hlt : c.index < i
      · refine .inl ⟨rfl, congrArg (· + 1) h.index, h.scope, hlt, ?_⟩
        rw [Nat.add_sub_add_right]
        exact htake
      · exact .inr (Nat.lt_succ_of_le (Nat.le_of_not_lt hlt))

end Agrees

theorem Past.advance (h : Past i c) : Past i c.advance := by
  rw [Cursor.advance]
  split
  · exact h
  · split
    · exact h
    · exact Nat.lt_succ_of_lt h

/-- A step over the token at `i` leads past it. -/
theorem past_advance (hindex : c.index = i) {l : Lexeme} (hl : c.lexeme = l)
    (hne : l ≠ .endOfText) : Past i c.advance := by
  obtain ⟨j, r, s⟩ := c
  obtain ⟨t, rest, rfl, ht⟩ := (Cursor.lexeme_eq_iff hne).mp hl
  rw [Cursor.advance_cons ht hne]
  exact Nat.lt_succ_of_le (Nat.le_of_eq hindex.symm)

/-- A reader that is as good as past the token is past it with the next step. -/
theorem Leaves.advance (h : Leaves i c) : Past i c.advance := by
  rcases h with h | ⟨hindex, name, hname⟩
  · exact h.advance
  · exact past_advance hindex hname Lexeme.noConfusion

namespace Near

/-- Of two readers of which the first is past the token, the first stands for the second. -/
@[elab_as_elim]
theorem elim {motive : Bool → Cursor → Cursor → Prop} (h : Near i along c c')
    (mono : motive false c c → motive along c c')
    (abreast : ∀ along c c', Abreast i (Past i) along c c' → motive along c c') :
    motive along c c' := by
  rcases h with ⟨rfl, h⟩ | h
  · exact abreast true c c' h
  · exact mono (abreast false c c ⟨h, rfl⟩)

/-- A step of both readers leaves them as they stand to each other. -/
theorem advance (h : Near i along c c') : Near i along c.advance c'.advance := by
  rcases h with ⟨rfl, h⟩ | h
  · exact h.advance
  · exact .inr h.advance

theorem bind (h : Near i along c c') (name : Text) : Near i along (c.bind name) (c'.bind name) := by
  rcases h with ⟨rfl, h⟩ | h
  · exact .inl ⟨rfl, h.index, congrArg (·.bind name) h.scope, h.inside, h.tokens⟩
  · exact .inr h

theorem use (h : Near i along c c') (name : Text) : Near i along (c.use name) (c'.use name) := by
  rcases h with ⟨rfl, h⟩ | h
  · exact .inl ⟨rfl, h.index, congrArg (·.use name) h.scope, h.inside, h.tokens⟩
  · exact .inr h

end Near

namespace Abreast

/-- What counts as past may be widened. -/
theorem imp (h : Abreast i past along c c') (himp : past c → past' c) :
    Abreast i past' along c c' := by
  cases along with
  | true => exact h
  | false => exact ⟨himp h.1, h.2⟩

/-- Readers abreast see the same token, since the first stands for the second once it is past. -/
theorem token (h : Abreast i past along c c') : c'.token = c.token := by
  cases along with
  | true => exact Agrees.token h
  | false => rw [h.2]

theorem lexeme (h : Abreast i past along c c') : c'.lexeme = c.lexeme :=
  congrArg Token.lexeme h.token

theorem index (h : Abreast i past along c c') : c'.index = c.index := by
  cases along with
  | true => exact Agrees.index h
  | false => rw [h.2]

/-- Readers abreast are near each other. -/
theorem near (h : Abreast i (Past i) along c c') : Near i along c c' := by
  cases along with
  | true => exact .inl ⟨rfl, h⟩
  | false => exact .inr h.1

/-- A reader that is past the token is as good as past it. -/
theorem leaves (h : Abreast i (Past i) along c c') : Abreast i (Leaves i) along c c' := h.imp .inl

/-- A reader in front of no name has to be past the token already. -/
theorem strict (h : Abreast i (Leaves i) along c c') {l : Lexeme} (hl : c.lexeme = l)
    (hname : ∀ name, l ≠ .name name) : Abreast i (Past i) along c c' := by
  refine h.imp ?_
  rintro (hpast | ⟨-, name, hc⟩)
  · exact hpast
  · exact absurd (hl.symm.trans hc) (hname name)

/-- Also a reader that is only as good as past the token may step on. -/
theorem advance (h : Abreast i (Leaves i) along c c') : Near i along c.advance c'.advance := by
  cases along with
  | true => exact Agrees.advance h
  | false => exact .inr h.1.advance

end Abreast

namespace Alike

/-- A reader past the token may be compared with anything. -/
theorem mono {x x' y : Except Failure (α × Cursor)} (h : Alike i past false x y) :
    Alike i past along x x' := by
  cases h with
  | past h => exact .past h
  | ok h => cases h
  | late h => exact .late h
  | error h => cases h

/-- What counts as past may be widened. -/
theorem imp {x x' : Except Failure (α × Cursor)} (h : Alike i past along x x')
    (himp : ∀ c, past c → past' c) : Alike i past' along x x' := by
  cases h with
  | past h => exact .past (himp _ h)
  | ok h agrees => exact .ok h agrees
  | late h => exact .late h
  | error h => exact .error h

/-- Both readers go on behind what they have read. -/
theorem bind {x x' : Except Failure (α × Cursor)} {f : α × Cursor → Except Failure (β × Cursor)}
    (hx : Alike i past along x x')
    (hf : ∀ along a c c', Abreast i past along c c' → Alike i past' along (f (a, c)) (f (a, c'))) :
    Alike i past' along (x >>= f) (x' >>= f) := by
  cases hx with
  -- the second reader may be anywhere, so that the first goes on alone
  | @past a c _ h => exact (hf false a c c ⟨h, rfl⟩).mono
  | ok h agrees =>
      subst h
      exact hf true _ _ _ agrees
  | late h => exact .late h
  | error h => exact .error h

/-- Readers that see the same take the same branch. -/
theorem ite {P : Prop} [Decidable P] {x x' y y' : Except Failure (α × Cursor)}
    (hx : P → Alike i past along x x') (hy : ¬ P → Alike i past along y y') :
    Alike i past along (if P then x else y) (if P then x' else y') := by
  by_cases h : P
  · rw [if_pos h, if_pos h]
    exact hx h
  · rw [if_neg h, if_neg h]
    exact hy h

/-- Two readings that end with one value are alike if the cursors are abreast. -/
theorem result (h : Abreast i past along c c') (a : α) :
    Alike i past along (.ok (a, c)) (.ok (a, c')) := by
  cases along with
  | true => exact .ok rfl h
  | false => exact .past h.1

/-- It is enough that the cursors are near each other. -/
theorem result_near (h : Near i along c c') (a : α) :
    Alike i (Past i) along (.ok (a, c)) (.ok (a, c')) :=
  h.elim mono fun _ _ _ h => result h a

/-- A refusal at the next token is the same for both, or comes behind the token at `i`. -/
theorem fail (h : Abreast i (Past i) along c c') (fault : Fault) :
    Alike (α := α) i past along (c.fail fault) (c'.fail fault) := by
  rw [Cursor.fail, Cursor.fail, h.index]
  cases along with
  | true => exact .error rfl
  | false => exact .late fun _ => h.1

/-- Both readers find the mark that has to come next, or both miss it. -/
theorem expect {m : Mark} {fault : Fault} {f : Cursor → Except Failure (α × Cursor)}
    (h : Near i along c c')
    (hf : ∀ along c c', Abreast i (Past i) along c c' → Alike i past along (f c) (f c')) :
    Alike i past along (c.expect m fault >>= f) (c'.expect m fault >>= f) := by
  refine h.elim mono fun along c c' h => ?_
  rw [Cursor.expect, Cursor.expect, h.lexeme]
  by_cases hmark : c.lexeme = .mark m
  · rw [if_pos hmark, if_pos hmark]
    exact h.leaves.advance.elim mono hf
  · rw [if_neg hmark, if_neg hmark]
    exact fail h fault

end Alike

/-- The production keeps readers alike that stand side by side. -/
def Steady (i : Nat) (past : Cursor → Prop) (p : Cursor → Except Failure (α × Cursor)) : Prop :=
  ∀ along c c', Abreast i (Leaves i) along c c' → Alike i past along (p c) (p c')

/-- The production keeps readers alike that stand side by side, or of which the first is past the
token at `i`. -/
def Keeps (i : Nat) (past : Cursor → Prop) (p : Cursor → Except Failure (α × Cursor)) : Prop :=
  ∀ along c c', Near i along c c' → Alike i past along (p c) (p c')

/-- Readers that are near each other may be taken to be abreast. -/
theorem Keeps.intro {p : Cursor → Except Failure (α × Cursor)}
    (hp : ∀ along c c', Abreast i (Past i) along c c' → Alike i past along (p c) (p c')) :
    Keeps i past p := fun _ _ _ h => h.elim Alike.mono hp

/-- Steady productions keep readers that are near each other alike. -/
theorem Steady.keeps {p : Cursor → Except Failure (α × Cursor)} (hp : Steady i past p) :
    Keeps i past p := .intro fun along c c' h => hp along c c' h.leaves

end Grammar

/-- The productions of a level keep readers alike. -/
structure Level.Steady (i : Nat) (inner : Level) : Prop where
  statement : Grammar.Steady i (Grammar.Ends i) inner.statement
  expression : Grammar.Steady i (Grammar.Past i) inner.expression
  exponent : Grammar.Steady i (Grammar.Past i) inner.exponent
  unary : Grammar.Steady i (Grammar.Past i) inner.unary

namespace Grammar

/-! ## Expressions -/

variable {ρ : ProviderId} {i : Nat} {along : Bool} {c c' : Cursor} {inner : Level}

/-- The loop over arguments keeps readers alike: each argument is steady, and so is the look for a
comma. -/
theorem arguments_keeps {p : Production} (hp : Steady i (Past i) p) (fuel : Nat) :
    Keeps i (Past i) (arguments p fuel) := by
  induction fuel with
  | zero => exact fun along c c' h => .result_near h []
  | succ fuel ih =>
      intro along c c' h
      refine (hp.keeps along c c' h).bind fun along first c c' h => ?_
      dsimp only
      rw [h.lexeme]
      refine .ite (fun _ => ?_) (fun _ => .result h [first])
      exact (ih _ _ _ h.leaves.advance).bind fun along others c c' h => .result h (first :: others)

/-- Both readers find the closing parenthesis at once, or both go into the loop, with enough steps
each. -/
theorem argumentList_keeps (hin : inner.Steady i) (hadv : inner.Advances) :
    Keeps i (Past i) (argumentList inner) := by
  refine .intro fun along c c' h => ?_
  rw [argumentList, argumentList, h.lexeme]
  refine .ite (fun _ => .result h []) fun _ => ?_
  have hexpression : Progresses inner.expression := hadv .expression
  -- the same bound for both readers
  rw [arguments_fuel hexpression (Nat.lt_succ_self _)
      (Nat.lt_succ_of_le (Nat.le_max_left c.rest.length c'.rest.length)),
    arguments_fuel hexpression (Nat.lt_succ_self _)
      (Nat.lt_succ_of_le (Nat.le_max_right c.rest.length c'.rest.length))]
  exact arguments_keeps hin.expression _ _ _ _ h.near

/-- A call is judged for its name and arity behind its arguments, which is no cause of syntax. -/
theorem call_keeps (hin : inner.Steady i) (hadv : inner.Advances) (name : Text) (index : Nat) :
    Keeps i (Past i) (call ρ inner name index) := by
  intro along c c' h
  refine (argumentList_keeps hin hadv along c c' h).bind fun along nodes c c' h => ?_
  refine .expect h.near fun along c c' h => ?_
  cases Callee.ofName? name with
  | none => exact .late fun hkind => nomatch hkind
  | some callee =>
      dsimp only
      cases callee.call? ρ nodes with
      | none => exact .late fun hkind => nomatch hkind
      | some node => exact .result h node

/-- An operand is told by its first token, which both readers see. -/
theorem primary_steady (hin : inner.Steady i) (hadv : inner.Advances) :
    Steady i (Past i) (primary ρ inner) := by
  intro along c c' h
  rw [primary, primary, h.lexeme]
  cases hlexeme : c.lexeme with
  | number digits => exact .result_near h.advance _
  | name name =>
      dsimp only
      rw [h.index]
      refine h.advance.elim Alike.mono fun along _ _ h => ?_
      rw [h.token]
      refine .ite (fun _ => ?_) (fun _ => .result_near (h.near.use name) _)
      exact call_keeps hin hadv name _ _ _ _ h.leaves.advance
  | mark mark =>
      cases mark with
      | openParen =>
          refine (hin.expression.keeps _ _ _ h.advance).bind fun along node c c' h => ?_
          exact .expect h.near fun along c c' h => .result h node
      | _ => exact .fail (h.strict hlexeme fun _ => Lexeme.noConfusion) _
  | operator op => exact .fail (h.strict hlexeme fun _ => Lexeme.noConfusion) _
  | endOfText => exact .fail (h.strict hlexeme fun _ => Lexeme.noConfusion) _

/-- A sign is stepped over by both readers, and the operand is read one level further in. -/
theorem unary_steady (hin : inner.Steady i) (hadv : inner.Advances) :
    Steady i (Past i) (unary ρ inner) := by
  intro along c c' h
  have hoperand := hin.unary.keeps _ _ _ h.advance
  have hprimary := primary_steady (ρ := ρ) hin hadv along c c' h
  rw [unary, unary, h.lexeme]
  cases c.lexeme with
  | operator op =>
      cases op with
      | minus => exact hoperand.bind fun along operand c c' h => .result h (Node.negate operand)
      | not => exact hoperand.bind fun along operand c c' h => .result h (Node.not operand)
      | plus => exact hoperand
      | _ => exact hprimary
  | _ => exact hprimary

/-- Both readers see a caret behind the base, or neither does. -/
theorem exponent_steady (hin : inner.Steady i) (hadv : inner.Advances) :
    Steady i (Past i) (exponent ρ inner) := by
  intro along c c' h
  refine (unary_steady hin hadv along c c' h).bind fun along base c c' h => ?_
  dsimp only
  rw [h.token]
  refine .ite (fun _ => ?_) (fun _ => .result h base)
  exact (hin.exponent.keeps _ _ _ h.leaves.advance).bind fun along power c c' h => .result h _

section Chains

variable {p : Production} {build? : Operator → Option (Node → Node → Node)}

/-- The loop over operands keeps readers alike: it goes on by the same operator in both. -/
theorem chain_keeps (hp : Steady i (Past i) p) (fuel : Nat) (left : Node) :
    Keeps i (Past i) (chain p build? fuel left) := by
  induction fuel generalizing left with
  | zero => exact fun along c c' h => .result_near h left
  | succ fuel ih =>
      refine .intro fun along c c' h => ?_
      rw [chain, chain, h.token]
      cases c.token.joining?.bind build? with
      | none => exact .result h left
      | some build =>
          refine (hp.keeps _ _ _ h.leaves.advance).bind fun along right c c' h => ?_
          exact ih (build left right) along c c' h.near

/-- A chain of steady operands is steady, for the loop has steps enough for the tokens that remain.
-/
theorem leftChain_steady (hp : Steady i (Past i) p) (hprogress : Progresses p) :
    Steady i (Past i) (leftChain p build?) := by
  intro along c c' h
  refine (hp along c c' h).bind fun along left c c' h => ?_
  dsimp only
  rw [chain_fuel hprogress (Nat.lt_succ_self _)
      (Nat.lt_succ_of_le (Nat.le_max_left c.rest.length c'.rest.length)),
    chain_fuel hprogress (Nat.lt_succ_self _)
      (Nat.lt_succ_of_le (Nat.le_max_right c.rest.length c'.rest.length))]
  exact chain_keeps hp _ left along c c' h.near

end Chains

theorem additive_steady (hin : inner.Steady i) (hadv : inner.Advances) :
    Steady i (Past i) (additive ρ inner) :=
  leftChain_steady
    (leftChain_steady (exponent_steady hin hadv) (Rule.progresses .exponent hadv))
    (Rule.progresses .multiplicative hadv)

/-- A comparison is two sums or one, by the operator that both readers see. -/
theorem comparison_steady (hin : inner.Steady i) (hadv : inner.Advances) :
    Steady i (Past i) (comparison ρ inner) := by
  intro along c c' h
  refine (additive_steady hin hadv along c c' h).bind fun along left c c' h => ?_
  dsimp only
  rw [h.token]
  cases c.token.joining?.bind Operator.comparison? with
  | none => exact .result h left
  | some build =>
      refine ((additive_steady hin hadv).keeps _ _ _ h.leaves.advance).bind
        fun along right c c' h => ?_
      exact .result h (build left right)

theorem disjunction_steady (hin : inner.Steady i) (hadv : inner.Advances) :
    Steady i (Past i) (disjunction ρ inner) :=
  leftChain_steady
    (leftChain_steady (comparison_steady hin hadv) (Rule.progresses .comparison hadv))
    (Rule.progresses .conjunction hadv)

/-- A choice is steady: its question mark, its colon and its three parts are seen by both readers.
-/
theorem choice_steady (hin : inner.Steady i) (hadv : inner.Advances) :
    Steady i (Past i) (choice ρ inner) := by
  intro along c c' h
  refine (disjunction_steady hin hadv along c c' h).bind fun along condition c c' h => ?_
  dsimp only
  rw [h.token]
  refine .ite (fun _ => ?_) (fun _ => .result h condition)
  refine ((disjunction_steady hin hadv).keeps _ _ _ h.leaves.advance).bind
    fun along whenTrue c c' h => ?_
  refine .expect h.near fun along c c' h => ?_
  exact (hin.expression.keeps _ _ _ h.near).bind fun along whenFalse c c' h => .result h _

/-! ## Statements -/

/-- Skipping semicolons never leads back. -/
theorem Past.skipSemicolons (h : Past i c) : Past i c.skipSemicolons :=
  Nat.lt_of_lt_of_le h (Nat.le_add_right _ _)

/-- The first semicolon is skipped like any other. -/
theorem skipSemicolons_of_semicolon (h : c.lexeme = .mark .semicolon) :
    c.skipSemicolons = c.advance.skipSemicolons := by
  obtain ⟨j, r, s⟩ := c
  obtain ⟨t, rest, rfl, ht⟩ := (Cursor.lexeme_eq_iff Lexeme.noConfusion).mp h
  rw [Cursor.skipSemicolons_semicolon ht, Cursor.advance_cons ht Lexeme.noConfusion]

/-- A reader in front of a semicolon at `i` is past it when the semicolons are skipped. -/
theorem Ends.skipSemicolons (h : Ends i c) : Past i c.skipSemicolons := by
  rcases h with h | ⟨hindex, hsemi⟩
  · exact h.skipSemicolons
  · rw [skipSemicolons_of_semicolon hsemi]
    exact (past_advance hindex hsemi Lexeme.noConfusion).skipSemicolons

/-- Readers that agree skip the same semicolons, up to the token at `i`. -/
theorem Agrees.skipSemicolons (h : Agrees i c c') :
    Near i true c.skipSemicolons c'.skipSemicolons := by
  generalize hlength : c.rest.length = length
  induction length using Nat.strongRecOn generalizing c c' with
  | ind length ih =>
      by_cases hsemi : c.lexeme = .mark .semicolon
      · have hsemi' : c'.lexeme = .mark .semicolon := (congrArg Token.lexeme h.token).trans hsemi
        have hlt := (Cursor.passes_advance hsemi Lexeme.noConfusion).length_lt
        rw [skipSemicolons_of_semicolon hsemi, skipSemicolons_of_semicolon hsemi']
        rcases h.advance with ⟨-, h⟩ | h
        · exact ih _ (hlength ▸ hlt) h rfl
        · exact .inr h.skipSemicolons
      · have hsemi' : ¬ c'.lexeme = .mark .semicolon := by
          rw [Cursor.lexeme, h.token]
          exact hsemi
        rw [Cursor.skipSemicolons_of_ne hsemi, Cursor.skipSemicolons_of_ne hsemi']
        exact .inl ⟨rfl, h⟩

/-- Skipping semicolons brings readers behind a statement near each other again. -/
theorem Abreast.skipSemicolons (h : Abreast i (Ends i) along c c') :
    Near i along c.skipSemicolons c'.skipSemicolons := by
  cases along with
  | true => exact Agrees.skipSemicolons h
  | false => exact .inr h.1.skipSemicolons

/-- The loop over statements keeps readers alike: semicolons are skipped behind each statement. -/
theorem statements_keeps {p : Production} (hp : Steady i (Ends i) p) {ends : Lexeme → Bool}
    (fuel : Nat) : Keeps i (Past i) (statements p ends fuel) := by
  induction fuel with
  | zero => exact fun along c c' h => .result_near h []
  | succ fuel ih =>
      refine .intro fun along c c' h => ?_
      rw [statements, statements, h.lexeme]
      refine .ite (fun _ => .result h []) fun _ => ?_
      refine (hp along c c' h.leaves).bind fun along first c c' h => ?_
      exact (ih _ _ _ h.skipSemicolons).bind fun along others c c' h => .result h (first :: others)

/-- Both readers have steps enough for the statements that remain to them. -/
theorem statementList_keeps (hin : inner.Steady i) (hadv : inner.Advances) (ends : Lexeme → Bool) :
    Keeps i (Past i) (statementList inner ends) := by
  have hloop : Keeps i (Past i) fun c => statements inner.statement ends (c.rest.length + 1) c := by
    intro along c c' h
    dsimp only
    have hstatement : Progresses inner.statement := hadv .statement
    rw [statements_fuel hstatement (Nat.lt_succ_self _)
        (Nat.lt_succ_of_le (Nat.le_max_left c.rest.length c'.rest.length)),
      statements_fuel hstatement (Nat.lt_succ_self _)
        (Nat.lt_succ_of_le (Nat.le_max_right c.rest.length c'.rest.length))]
    exact statements_keeps hin.statement _ along c c' h
  refine .intro fun along c c' h => ?_
  exact hloop _ _ _ (h.imp .inl).skipSemicolons

/-- A declaration looks at the tokens behind its word one by one. -/
theorem declaration_steady (hin : inner.Steady i) : Steady i (Past i) (declaration inner) := by
  intro along c c' h
  rw [declaration, declaration]
  refine h.advance.elim Alike.mono fun along c c' h => ?_
  dsimp only
  rw [h.lexeme]
  cases c.lexeme with
  | name name =>
      dsimp only
      refine (h.leaves.advance.bind name).elim Alike.mono fun along c c' h => ?_
      rw [h.token]
      refine .ite (fun _ => ?_) (fun _ => .result h _)
      exact (hin.expression.keeps _ _ _ h.leaves.advance).bind fun along value c c' h => .result h _
  | _ => exact .fail h _

theorem skipBeforeElse_of_else (hsemi : c.lexeme = .mark .semicolon)
    (helse : c.following.lexeme.isElse) : skipBeforeElse c = c.advance := by
  rw [skipBeforeElse, hsemi, helse]
  rfl

theorem skipBeforeElse_of_ne (h : ¬ (c.lexeme = .mark .semicolon ∧ c.following.lexeme.isElse)) :
    skipBeforeElse c = c := by
  rw [skipBeforeElse]
  exact if_neg (by simpa using h)

/-- The look for another statement never leads back. -/
theorem Past.skipBeforeElse (h : Past i c) : Past i (skipBeforeElse c) := by
  rw [Grammar.skipBeforeElse]
  split
  · exact h.advance
  · exact h

/-- The look for another statement goes two tokens ahead, so that the readers have to agree on the
second of them too. -/
theorem Agrees.skipBeforeElse (h : Agrees i c c') (hlt : c.lexeme = .mark .semicolon → c.index < i) :
    Near i true (skipBeforeElse c) (skipBeforeElse c') := by
  have hlexeme : c'.lexeme = c.lexeme := congrArg Token.lexeme h.token
  by_cases hskip : c.lexeme = .mark .semicolon ∧ c.following.lexeme.isElse
  · have hfollowing := h.following (hlt hskip.1)
    rw [skipBeforeElse_of_else hskip.1 hskip.2,
      skipBeforeElse_of_else (hlexeme.trans hskip.1) (hfollowing ▸ hskip.2)]
    exact h.advance
  · have hskip' : ¬ (c'.lexeme = .mark .semicolon ∧ c'.following.lexeme.isElse) := by
      rintro ⟨hsemi, helse⟩
      have hsemi' := hlexeme.symm.trans hsemi
      rw [h.following (hlt hsemi')] at helse
      exact hskip ⟨hsemi', helse⟩
    rw [skipBeforeElse_of_ne hskip, skipBeforeElse_of_ne hskip']
    exact .inl ⟨rfl, h⟩

/-- A reader that looks behind the semicolon at `i` goes on past it, or stops in front of it. -/
theorem Abreast.skipBeforeElse (h : Abreast i (Ends i) along c c') :
    Near i along (skipBeforeElse c) (skipBeforeElse c')
      ∨ Ends i (skipBeforeElse c) ∧ ¬ (skipBeforeElse c).lexeme.isElse := by
  by_cases hsemi : c.index = i ∧ c.lexeme = .mark .semicolon
  · by_cases helse : c.following.lexeme.isElse
    · rw [skipBeforeElse_of_else hsemi.2 helse]
      exact .inl (.inr (past_advance hsemi.1 hsemi.2 Lexeme.noConfusion))
    · rw [skipBeforeElse_of_ne fun hc => helse hc.2]
      refine .inr ⟨.inr hsemi, ?_⟩
      rw [hsemi.2]
      exact Bool.noConfusion
  · refine .inl ?_
    cases along with
    | true =>
        refine Agrees.skipBeforeElse h fun hlexeme => ?_
        exact Nat.lt_of_le_of_ne (Agrees.inside h) fun hindex => hsemi ⟨hindex, hlexeme⟩
    | false => exact .inr (h.1.resolve_right hsemi).skipBeforeElse

/-- A conditional without another statement ends in front of a semicolon that may be the token at
`i`. -/
theorem conditional_steady (hin : inner.Steady i) : Steady i (Ends i) (conditional inner) := by
  intro along c c' h
  refine .expect h.advance fun along c c' h => ?_
  refine (hin.expression.keeps _ _ _ h.near).bind fun along condition c c' h => ?_
  refine .expect h.near fun along c c' h => ?_
  refine (hin.statement.keeps _ _ _ h.near).bind fun along body c c' h => ?_
  dsimp only
  rcases h.skipBeforeElse with h | ⟨hends, helse⟩
  · refine h.elim Alike.mono fun along c c' h => ?_
    rw [h.lexeme]
    refine .ite (fun _ => ?_) (fun _ => .result (h.imp .inl) _)
    exact (hin.statement.keeps _ _ _ h.leaves.advance).bind fun along other c c' h => .result h _
  · rw [if_neg helse]
    exact .past hends

/-- A block ends with its closing brace, which both readers find or miss. -/
theorem block_steady (hin : inner.Steady i) (hadv : inner.Advances) :
    Steady i (Past i) (block inner) := by
  intro along c c' h
  refine (statementList_keeps hin hadv _ _ _ _ h.advance).bind fun along nodes c c' h => ?_
  exact .expect h.near fun along c c' h => .result h _

/-- If readers see the same behind the next token, an assignment is told from an expression alike. -/
theorem assignment_of_following (hin : inner.Steady i) (h : Abreast i (Leaves i) along c c')
    (hfollowing : c'.following = c.following) :
    Alike i (Past i) along (assignment inner c) (assignment inner c') := by
  have hvalue := hin.expression along c c' h
  rw [assignment, assignment, h.lexeme, hfollowing]
  cases c.lexeme with
  | name name =>
      cases c.following.joining?.bind Operator.assignment? with
      | none => exact hvalue
      | some op =>
          refine (hin.expression.keeps _ _ _ h.advance.advance).bind fun along value c c' h => ?_
          exact .result_near (h.near.bind name) _
  | _ => exact hvalue

/-- Only a name is assigned to. -/
theorem assignment_eq_of_ne (h : ∀ name, c.lexeme ≠ .name name) :
    assignment inner c = inner.expression c := by
  rw [assignment]
  split
  · rename_i name _ hname _
    exact absurd hname (h name)
  · rfl

/-- Whether a name is assigned to shows at the token behind it, when the name itself has been taken.
-/
theorem assignment_steady (hin : inner.Steady i) : Steady i (Past i) (assignment inner) := by
  intro along c c' h
  cases along with
  | false => exact assignment_of_following hin h (by rw [h.2])
  | true =>
      have hagrees : Agrees i c c' := h
      by_cases hlt : c.index < i
      · exact assignment_of_following hin h (hagrees.following hlt)
      · have hindex : c.index = i := Nat.le_antisymm hagrees.inside (Nat.le_of_not_lt hlt)
        by_cases hname : ∃ name, c.lexeme = .name name
        · -- the name at `i` is taken, whatever stands behind it
          have hleaves : Abreast i (Leaves i) false c c := ⟨.inr ⟨hindex, hname⟩, rfl⟩
          exact (assignment_of_following hin hleaves rfl).mono
        · have hne : ∀ name, c.lexeme ≠ .name name := fun name hc => hname ⟨name, hc⟩
          rw [assignment_eq_of_ne hne, assignment_eq_of_ne (c := c') (h.lexeme ▸ hne)]
          exact hin.expression true c c' h

/-- The form of a statement is told by its first token, which both readers see. -/
theorem statement_steady (hin : inner.Steady i) (hadv : inner.Advances) :
    Steady i (Ends i) (statement inner) := by
  intro along c c' h
  rw [statement, statement, h.lexeme]
  refine .ite (fun _ => (declaration_steady hin along c c' h).imp fun _ => .inl) fun _ => ?_
  refine .ite (fun _ => conditional_steady hin along c c' h) fun _ => ?_
  refine .ite (fun _ => (block_steady hin hadv along c c' h).imp fun _ => .inl) fun _ => ?_
  exact (assignment_steady hin along c c' h).imp fun _ => .inl

end Grammar

/-! ## Whole lists of tokens -/

variable {ρ : ProviderId}

/-- A level that opens nothing refuses for no cause of syntax. -/
theorem Level.exhausted_steady (i limit : Nat) : (exhausted limit).Steady i where
  statement _ _ _ _ := .late fun hkind => nomatch hkind
  expression _ _ _ _ := .late fun hkind => nomatch hkind
  exponent _ _ _ _ := .late fun hkind => nomatch hkind
  unary _ _ _ _ := .late fun hkind => nomatch hkind

/-- All levels are steady, by induction on how many more can be opened. -/
theorem Level.ofBudget_steady (i limit n : Nat) : (ofBudget ρ limit n).Steady i := by
  induction n with
  | zero => exact exhausted_steady i limit
  | succ n ih =>
      have hadv := advances_ofBudget (ρ := ρ) limit n
      exact ⟨Grammar.statement_steady ih hadv, Grammar.choice_steady ih hadv,
        Grammar.exponent_steady ih hadv, Grammar.unary_steady ih hadv⟩

/-- A list of tokens that is refused at a token for a cause of syntax is refused in the same way, at
the same token, whatever follows the token. -/
theorem readProgram_eq_error_of_take {limit : Nat} {ts us : List Token} {e : Failure}
    (h : (Level.ofBudget ρ limit limit).readProgram ts = .error e)
    (hkind : e.fault.kind.isSyntactic = true)
    (htake : us.take (e.index + 1) = ts.take (e.index + 1)) :
    (Level.ofBudget ρ limit limit).readProgram us = .error e := by
  have hagrees : Grammar.Agrees e.index (Cursor.start ts) (Cursor.start us) :=
    ⟨rfl, rfl, Nat.zero_le _, htake⟩
  have halike := Grammar.statementList_keeps (Level.ofBudget_steady (ρ := ρ) e.index limit limit)
    (Level.advances_ofBudget limit limit) Grammar.endsProgram true _ _ (.inl ⟨rfl, hagrees⟩)
  rw [Level.readProgram] at h ⊢
  generalize Grammar.statementList _ _ (Cursor.start ts) = x at h halike
  generalize Grammar.statementList _ _ (Cursor.start us) = x' at halike
  cases halike with
  | past | ok => cases h
  | late hlate =>
      cases h
      exact absurd (hlate hkind) (Nat.lt_irrefl _)
  | error => exact h

/-- The parenthesis behind a conditional is refused, also if another statement of the conditional
seems to follow. -/
theorem readProgram_eq_error_before_else :
    ∃ front : List Token, front = [.name (Text.ofString "if"), .mark .openParen,
        .name (Text.ofString "a"), .mark .closeParen, .name (Text.ofString "b"), .mark .semicolon,
        .mark .closeParen].map (⟨·, false⟩)
      ∧ (Level.ofBudget ⟨0⟩ nestingLimit nestingLimit).readProgram (front ++ [⟨.endOfText, false⟩])
        = .error ⟨.unexpectedToken (Text.ofString ")"), 6⟩
      ∧ (Level.ofBudget ⟨0⟩ nestingLimit nestingLimit).readProgram
          (front ++ [⟨.name (Text.ofString "else"), false⟩,
            ⟨.name (Text.ofString "c"), false⟩, ⟨.endOfText, false⟩])
        = .error ⟨.unexpectedToken (Text.ofString ")"), 6⟩ := by
  refine ⟨_, rfl, ?_⟩
  have h : (Level.ofBudget ⟨0⟩ nestingLimit nestingLimit).readProgram
        ([.name (Text.ofString "if"), .mark .openParen, .name (Text.ofString "a"),
          .mark .closeParen, .name (Text.ofString "b"), .mark .semicolon,
          .mark .closeParen].map (⟨·, false⟩) ++ [⟨.endOfText, false⟩])
      = .error ⟨.unexpectedToken (Text.ofString ")"), 6⟩ := rfl
  exact ⟨h, readProgram_eq_error_of_take h rfl rfl⟩

end Formulary
