import Formulary.Proofs.Grammar.Derivation

/-!
# Tables of operators and functions

The reader finds what an operator or a name stands for by looking it up. Each table holds exactly
what the grammar says.

- `Grammar.Layer.build?_eq_some_iff` and the two theorems behind it are the tables of operators.
- `Grammar.calls_iff` is the table of functions, with the count of arguments that each of them takes.
-/

namespace Formulary

/-! ## Tokens that go on with the line -/

namespace Token

theorem joining?_eq_some_iff {t : Token} {op : Operator} :
    t.joining? = some op ↔ t.Joins (.operator op) := by
  obtain ⟨lexeme, broken⟩ := t
  cases broken <;> cases lexeme <;> simp [joining?, Joins]

theorem joinsWith_iff {t : Token} {m : Mark} : t.joinsWith m = true ↔ t.Joins (.mark m) := by
  simp [joinsWith, Joins]

end Token

namespace Grammar

/-- What an operator of a layer builds. -/
def Layer.build? : Layer → Operator → Option (Node → Node → Node)
  | .disjunction => Operator.disjunction?
  | .conjunction => Operator.conjunction?
  | .additive => Operator.additive?
  | .multiplicative => Operator.multiplicative?

theorem Layer.build?_eq_some_iff {l : Layer} {op : Operator} {build : Node → Node → Node} :
    l.build? op = some build ↔ l.Builds op build := by
  constructor
  · intro h
    cases l <;> cases op <;>
      simp only [build?, Operator.disjunction?, Operator.conjunction?, Operator.additive?,
        Operator.multiplicative?, Option.some.injEq, reduceCtorEq] at h
    all_goals subst h; constructor
  · intro h
    cases h <;> rfl

theorem comparison?_eq_some_iff {op : Operator} {build : Node → Node → Node} :
    op.comparison? = some build ↔ ∃ cmp, Compares op cmp ∧ build = .comparison cmp := by
  constructor
  · intro h
    cases op <;> simp only [Operator.comparison?, Option.some.injEq, reduceCtorEq] at h
    all_goals exact ⟨_, by constructor, h.symm⟩
  · rintro ⟨cmp, hc, rfl⟩
    cases hc <;> rfl

theorem assignment?_eq_some_iff {op : Operator} {asg : AssignmentOp} :
    op.assignment? = some asg ↔ Assigns op asg := by
  constructor
  · intro h
    cases op <;> simp only [Operator.assignment?, Option.some.injEq, reduceCtorEq] at h
    all_goals subst h; constructor
  · intro h
    cases h <;> rfl

end Grammar

/-! ## The functions -/

namespace Callee

/-- The names that a callee answers to. -/
def name : Callee → Text
  | .math f => f.name
  | .multi f => f.name
  | .randomValue => Text.ofString "random"
  | .randomInteger => Text.ofString "rand"
  | .randomBelow => Text.ofString "randf"

/-- No two callees share a name. -/
theorem ofName?_name (callee : Callee) : ofName? callee.name = some callee := by
  cases callee with
  | math f => cases f <;> decide
  | multi f => cases f <;> decide
  | randomValue => decide
  | randomInteger => decide
  | randomBelow => decide

theorem name_of_ofName? {name : Text} {callee : Callee} (h : ofName? name = some callee) :
    callee.name = name := by
  rw [ofName?] at h
  split at h
  · rename_i f hf
    have found := List.find?_some hf
    rw [← Option.some.inj h]
    exact of_decide_eq_true found
  · split at h
    · rename_i f hf
      have found := List.find?_some hf
      rw [← Option.some.inj h]
      exact of_decide_eq_true found
    · split at h
      · rename_i heq
        rw [← Option.some.inj h, heq, Callee.name]
      · split at h
        · rename_i heq
          rw [← Option.some.inj h, heq, Callee.name]
        · split at h
          · rename_i heq
            rw [← Option.some.inj h, heq, Callee.name]
          · exact nomatch h

theorem calls_of_call? {ρ : ProviderId} {callee : Callee} {nodes : List Node} {node : Node}
    (h : callee.call? ρ nodes = some node) : Grammar.Calls ρ callee.name nodes node := by
  unfold call? at h
  split at h
  case h_6 => exact nomatch h
  all_goals
    rw [← Option.some.inj h]
    constructor

end Callee

/-- A call is what the table of functions gives for its name and its arguments. -/
theorem Grammar.calls_iff {ρ : ProviderId} {name : Text} {nodes : List Node} {node : Node} :
    Calls ρ name nodes node
      ↔ ∃ callee, Callee.ofName? name = some callee ∧ callee.call? ρ nodes = some node := by
  constructor
  · intro h
    cases h with
    | math f argument => exact ⟨.math f, Callee.ofName?_name (.math f), rfl⟩
    | multi f first others => exact ⟨.multi f, Callee.ofName?_name (.multi f), rfl⟩
    | randomValue => exact ⟨.randomValue, Callee.ofName?_name .randomValue, rfl⟩
    | randomInteger bound => exact ⟨.randomInteger, Callee.ofName?_name .randomInteger, rfl⟩
    | randomBelow bound => exact ⟨.randomBelow, Callee.ofName?_name .randomBelow, rfl⟩
  · rintro ⟨callee, hname, hcall⟩
    rw [← Callee.name_of_ofName? hname]
    exact Callee.calls_of_call? hcall

end Formulary
