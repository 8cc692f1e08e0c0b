import Formulary.Proofs.Grammar.Following

/-!
# Levels of precedence

The kinds of expressions stand in a row from the loosest to the tightest. A phrase of a tight kind
is also one of every looser kind, as long as nothing follows that the looser kind would take in.

- `Category.opened k` is the kind at level `k`, before it is known that nothing more can be joined
  on; `Category.closed k` is the kind at level `k` with nothing left to join on.
- `Quiet k rest` says that `rest` goes on with no phrase of level `k` or tighter.
- `Derives.loosen` takes a phrase from its level to a looser one, and `Derives.join` joins two by an
  operator of their level.
-/

namespace Formulary

variable {ρ : ProviderId}

/-- The level of the phrases that a lexeme goes on with. -/
def Lexeme.strength? : Lexeme → Option Nat
  | .mark .question => some 0
  | .operator .or => some 1
  | .operator .and => some 2
  | .operator .less | .operator .lessEqual | .operator .greater | .operator .greaterEqual
  | .operator .equal | .operator .notEqual => some 3
  | .operator .plus | .operator .minus => some 4
  | .operator .times | .operator .divide | .operator .percent => some 5
  | .operator .caret => some 6
  | .mark .openParen => some 8
  | _ => none

namespace Grammar

/-- The tokens go on with no phrase of level `k` or tighter. -/
def Quiet (k : Nat) (rest : List Token) : Prop :=
  ∀ l j, l.strength? = some j → k ≤ j → ¬ Continues rest l

namespace Quiet

variable {j k : Nat} {rest : List Token}

/-- What goes on with no phrase of a level goes on with none of a tighter one. -/
theorem mono (h : Quiet j rest) (hjk : j ≤ k) : Quiet k rest :=
  fun l i hi hki => h l i hi (Nat.le_trans hjk hki)

/-- A token of a looser level, or of none, is quiet. -/
theorem cons {t : Token} (h : ∀ i, t.lexeme.strength? = some i → i < k) : Quiet k (t :: rest) := by
  intro l i hi hki hc
  have hjoins : t.Joins l := hc
  rw [← hjoins.1] at hi
  exact Nat.lt_irrefl k (Nat.lt_of_le_of_lt hki (h i hi))

/-- Detached tokens go on with nothing at all. -/
theorem of_detached (h : Detached rest) : Quiet k rest := by
  intro l i hi _
  match l with
  | .operator op => exact h.operator op
  | .mark .question => exact h.question
  | .mark .openParen => exact h.call
  | .mark .closeParen | .mark .openBrace | .mark .closeBrace | .mark .comma | .mark .semicolon
  | .mark .colon => exact nomatch hi
  | .number _ | .name _ | .endOfText => exact nomatch hi

/-- No choice goes on. -/
theorem question (h : Quiet 0 rest) : ¬ Continues rest (.mark .question) :=
  h _ 0 rfl (Nat.le_refl _)

/-- No comparison goes on. -/
theorem comparison (h : Quiet 3 rest) : ¬ ContinuesComparison rest := by
  rintro ⟨op, cmp, hcmp, hc⟩
  cases hcmp <;> exact h _ 3 rfl (Nat.le_refl _) hc

/-- No power goes on. -/
theorem caret (h : Quiet 6 rest) : ¬ Continues rest (.operator .caret) :=
  h _ 6 rfl (Nat.le_refl _)

/-- No call goes on. -/
theorem call (h : Quiet 8 rest) : ¬ Continues rest (.mark .openParen) :=
  h _ 8 rfl (Nat.le_refl _)

end Quiet

/-- The level of a layer. -/
def Layer.level : Layer → Nat
  | .disjunction => 1
  | .conjunction => 2
  | .additive => 4
  | .multiplicative => 5

/-- The operators of a layer bind at its level. -/
theorem Layer.Builds.strength? {l : Layer} {op : Operator} {build : Node → Node → Node}
    (h : l.Builds op build) : (Lexeme.operator op).strength? = some l.level := by
  cases h <;> rfl

/-- No operator of the layer goes on. -/
theorem Quiet.layer {l : Layer} {rest : List Token} (h : Quiet l.level rest) :
    ¬ ContinuesLayer rest l := by
  rintro ⟨op, build, hbuild, hc⟩
  exact h _ _ hbuild.strength? (Nat.le_refl _) hc

/-- The kind of the phrases of a level, to which more may be joined. -/
def Category.opened : Nat → Category
  | 0 => .expression
  | 1 => .run .disjunction
  | 2 => .run .conjunction
  | 3 => .comparison
  | 4 => .run .additive
  | 5 => .run .multiplicative
  | 6 => .exponent
  | 7 => .unary
  | _ => .primary

/-- The kind of the phrases of a level with nothing left to join on. -/
def Category.closed : Nat → Category
  | 1 => .layer .disjunction
  | 2 => .layer .conjunction
  | 4 => .layer .additive
  | 5 => .layer .multiplicative
  | k => .opened k

/-- The operands of a layer are the phrases of the next tighter level. -/
theorem Layer.closed_operand (l : Layer) : Category.closed (l.level + 1) = l.operand := by
  cases l <;> rfl

/-- A phrase of the level that may go on is a run of the layer. -/
theorem Layer.opened_level (l : Layer) : Category.opened l.level = .run l := by
  cases l <;> rfl

/-- The level from which on nothing may go on with an open phrase: a layer can be joined to by its
own operators. -/
def margin : Nat → Nat
  | 1 => 2
  | 2 => 3
  | 4 => 5
  | 5 => 6
  | k => k

theorem Layer.margin_level (l : Layer) : margin l.level = l.level + 1 := by
  cases l <;> rfl

theorem le_margin (k : Nat) : k ≤ margin k := by
  unfold margin
  split <;> omega

/-- Beyond the next level nothing is asked of what follows. -/
theorem margin_le (k : Nat) : margin k ≤ k + 1 := by
  unfold margin
  split <;> omega

theorem margin_mono {j k : Nat} (h : j ≤ k) : margin j ≤ margin k := by
  rcases Nat.lt_or_eq_of_le h with hlt | rfl
  · exact Nat.le_trans (margin_le j) (Nat.le_trans hlt (le_margin k))
  · exact Nat.le_refl _

variable {d : Nat} {ts rest : List Token} {nodes : List Node} {node : Node}

/-- One level looser. -/
theorem Derives.loosen_one {k : Nat} (hk : k < 8)
    (h : Derives ρ d (.opened (k + 1)) ts [node] rest) (hq : Quiet (margin k) rest) :
    Derives ρ d (.opened k) ts [node] rest := by
  match k, hk with
  | 0, _ => exact .plain (.layer h (Quiet.layer (hq.mono (by decide)))) hq.question
  | 1, _ => exact .first (.layer h (Quiet.layer hq))
  | 2, _ => exact .first h
  | 3, _ => exact .uncompared (.layer h (Quiet.layer (hq.mono (by decide)))) hq.comparison
  | 4, _ => exact .first (.layer h (Quiet.layer hq))
  | 5, _ => exact .first h
  | 6, _ => exact .base h hq.caret
  | 7, _ => exact .unsigned h

/-- A phrase is one of every looser level that nothing goes on with. -/
theorem Derives.loosen {j k : Nat} (hj : j ≤ 8) (hkj : k ≤ j)
    (h : Derives ρ d (.opened j) ts [node] rest) (hq : Quiet (margin k) rest) :
    Derives ρ d (.opened k) ts [node] rest := by
  induction j with
  | zero =>
      obtain rfl := Nat.le_zero.mp hkj
      exact h
  | succ j ih =>
      rcases Nat.lt_or_eq_of_le hkj with hlt | rfl
      · have hle : k ≤ j := Nat.le_of_lt_succ hlt
        exact ih (by omega) hle (h.loosen_one hj (hq.mono (margin_mono hle)))
      · exact h

/-- A phrase to which nothing can be joined. -/
theorem Derives.close {k : Nat} (h : Derives ρ d (.opened k) ts [node] rest) (hq : Quiet k rest) :
    Derives ρ d (.closed k) ts [node] rest := by
  unfold Category.closed
  split
  · exact .layer h (Quiet.layer hq)
  · exact .layer h (Quiet.layer hq)
  · exact .layer h (Quiet.layer hq)
  · exact .layer h (Quiet.layer hq)
  · exact h

/-- Two operands of a layer are joined by one of its operators. -/
theorem Derives.join {e : Nat} {l : Layer} {op : Operator} {build : Node → Node → Node}
    {us : List Token} {left right : Node} (kind : l.Builds op build)
    (hleft : ∀ more, Quiet (margin l.level) more → Derives ρ d (.opened l.level) ts [left] more)
    (hright : Derives ρ e (.opened (l.level + 1)) us [right] rest) (hq : Quiet (margin l.level) rest) :
    Derives ρ (max d e) (.opened l.level) (ts ++ ⟨.operator op, false⟩ :: us) [build left right]
      rest := by
  rw [l.margin_level] at hq
  have hquiet : Quiet (margin l.level) (⟨.operator op, false⟩ :: (us ++ rest)) := by
    refine .cons fun i hi => ?_
    rw [l.margin_level, Nat.lt_succ_iff]
    exact Nat.le_of_eq (Option.some.inj (hi.symm.trans kind.strength?))
  have hoperand : Derives ρ e l.operand us [right] rest := l.closed_operand ▸ hright.close hq
  have hrun := hleft _ hquiet
  rw [l.opened_level] at hrun ⊢
  exact .next hrun kind ⟨rfl, rfl⟩ hoperand

end Grammar

end Formulary
