import Formulary.Proofs.Grammar.Names
import Formulary.Proofs.Grammar.Tables

/-!
# Steps of the reader

What the tests and steps of a cursor say about the tokens that remain, and what it means for a
production to read the phrases of a kind.

- `Cursor.expect_eq_ok_iff`, `Cursor.joining?_iff` and the lemmas beside them turn a test of the
  next token into a fact about the list of tokens.
- `Reads ρ p n k` says that the production `p` accepts exactly the phrases of kind `k` that nest less
  than `n` levels deep, that it stops behind the phrase, and that the scope it leaves is the scope
  behind the tree.
-/

namespace Formulary

/-- Two readings in turn succeed exactly if both do. -/
theorem Grammar.bind_eq_ok_iff {ε α β : Type} {x : Except ε α} {f : α → Except ε β} {b : β} :
    x >>= f = .ok b ↔ ∃ a, x = .ok a ∧ f a = .ok b := by
  cases x with
  | error e =>
      constructor
      · intro h
        exact nomatch h
      · rintro ⟨_, h, _⟩
        exact nomatch h
  | ok a =>
      constructor
      · intro h
        exact ⟨a, rfl, h⟩
      · rintro ⟨_, h, hb⟩
        cases h
        exact hb

/-- A step that succeeds hands its result on. -/
theorem Grammar.ok_bind {ε α β : Type} (a : α) (f : α → Except ε β) :
    ((.ok a : Except ε α) >>= f) = f a := rfl

namespace Cursor

variable {i : Nat} {r : List Token} {s : Scope}

@[simp] theorem token_cons (t : Token) : token ⟨i, t :: r, s⟩ = t := rfl

@[simp] theorem lexeme_cons (t : Token) : lexeme ⟨i, t :: r, s⟩ = t.lexeme := rfl

/-- A token other than the end of the text is stepped over. -/
theorem advance_cons {t : Token} {l : Lexeme} (h : t.lexeme = l) (hl : l ≠ .endOfText) :
    advance ⟨i, t :: r, s⟩ = ⟨i + 1, r, s⟩ := by
  rw [advance]
  exact if_neg (h ▸ hl)

/-- A lexeme other than the end of the text is read off a token that remains. -/
theorem lexeme_eq_iff {l : Lexeme} (hl : l ≠ .endOfText) :
    lexeme ⟨i, r, s⟩ = l ↔ ∃ t rest, r = t :: rest ∧ t.lexeme = l := by
  cases r with
  | nil =>
      constructor
      · intro h
        exact absurd h.symm hl
      · rintro ⟨_, _, h, _⟩
        exact nomatch h
  | cons t rest =>
      constructor
      · intro h
        exact ⟨t, rest, rfl, h⟩
      · rintro ⟨_, _, h, ht⟩
        cases h
        exact ht

/-- A mark that has to come next is found exactly if it is the next token. -/
theorem expect_eq_ok_iff {m : Mark} {fault : Fault} {c : Cursor} :
    expect ⟨i, r, s⟩ m fault = .ok c
      ↔ ∃ t rest, r = t :: rest ∧ t.lexeme = .mark m ∧ c = ⟨i + 1, rest, s⟩ := by
  rw [expect]
  constructor
  · intro h
    split at h
    · rename_i hm
      obtain ⟨t, rest, rfl, ht⟩ := (lexeme_eq_iff (by simp)).mp hm
      rw [advance_cons ht (by simp)] at h
      exact ⟨t, rest, rfl, ht, (Except.ok.inj h).symm⟩
    · exact nomatch h
  · rintro ⟨t, rest, rfl, ht, rfl⟩
    rw [lexeme_cons, if_pos ht, advance_cons ht (by simp)]

/-- The next token is an operator that goes on with the line exactly if the tokens go on by it. -/
theorem joining?_iff {op : Operator} :
    (token ⟨i, r, s⟩).joining? = some op ↔ Grammar.Continues r (.operator op) := by
  cases r with
  | nil => exact ⟨(nomatch ·), False.elim⟩
  | cons t rest => exact Token.joining?_eq_some_iff

/-- The same for a mark. -/
theorem joinsWith_iff {m : Mark} :
    (token ⟨i, r, s⟩).joinsWith m = true ↔ Grammar.Continues r (.mark m) := by
  cases r with
  | nil => exact ⟨(nomatch ·), False.elim⟩
  | cons t rest => exact Token.joinsWith_iff

/-- The same for an operator that stands in a table. -/
theorem bind_joining?_iff {α : Type} {table : Operator → Option α} {a : α} :
    (token ⟨i, r, s⟩).joining?.bind table = some a
      ↔ ∃ op, table op = some a ∧ Grammar.Continues r (.operator op) := by
  rw [Option.bind_eq_some_iff]
  constructor
  · rintro ⟨op, hop, ha⟩
    exact ⟨op, ha, joining?_iff.mp hop⟩
  · rintro ⟨op, ha, hop⟩
    exact ⟨op, joining?_iff.mpr hop, ha⟩

end Cursor

namespace Grammar

theorem continues_cons {t : Token} {r : List Token} {l : Lexeme} :
    Continues (t :: r) l ↔ t.Joins l := Iff.rfl

/-- Tokens that go on with a line begin with the one that does. -/
theorem Continues.cons_of {r : List Token} {l : Lexeme} (h : Continues r l) :
    ∃ t rest, r = t :: rest ∧ t.Joins l := by
  cases r with
  | nil => exact h.elim
  | cons t rest => exact ⟨t, rest, rfl, h⟩

/-- The production accepts exactly the phrases of a kind that nest less than `n` levels deep. -/
structure Reads (ρ : ProviderId) (p : Production) (n : Nat) (k : Category) : Prop where
  /-- What is read is a phrase, and the cursor stands behind it. -/
  sound : ∀ {i : Nat} {r : List Token} {s : Scope} {node : Node} {c : Cursor},
    p ⟨i, r, s⟩ = .ok (node, c) →
      ∃ d, d < n ∧ ∃ ts rest, r = ts ++ rest ∧ Derives ρ d k ts [node] rest
        ∧ c = ⟨i + ts.length, rest, s.visit node⟩
  /-- A phrase is read. -/
  complete : ∀ {i : Nat} {s : Scope} {d : Nat} {ts rest : List Token} {node : Node},
    d < n → Derives ρ d k ts [node] rest →
      p ⟨i, ts ++ rest, s⟩ = .ok (node, ⟨i + ts.length, rest, s.visit node⟩)

end Grammar

/-- The productions of a level read their phrases. -/
structure Level.Reads (ρ : ProviderId) (inner : Level) (n : Nat) : Prop where
  statement : Grammar.Reads ρ inner.statement n .statement
  expression : Grammar.Reads ρ inner.expression n .expression
  exponent : Grammar.Reads ρ inner.exponent n .exponent
  unary : Grammar.Reads ρ inner.unary n .unary

end Formulary
