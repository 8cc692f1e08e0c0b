import Formulary.Proofs.Grammar.Statement

/-!
# Ways through a list of tokens

A reader steps over tokens from left to right, and never over the end of the text. How two cursors of
one reading stand to each other is all that counts for whether it comes to an end.

- `Cursor.Reaches` and `Cursor.Passes` say that the way from one cursor leads to another, over no
  token perhaps or over one at least.
- `Cursor.In` says that a cursor stands in a list of tokens, and `Cursor.Reaches.stays` that no way
  leads out of a text.
-/

namespace Formulary

/-! ## Cursors in a list -/

namespace Grammar

/-- The tokens of a text: its end is the last of them, and no other. -/
def EndsOnce (tokens : List Token) : Prop :=
  ∃ front last, tokens = front ++ [last] ∧ last.lexeme = .endOfText
    ∧ ∀ t ∈ front, t.lexeme ≠ .endOfText

end Grammar

namespace Cursor

/-- The cursor stands in a list, in front of one of its tokens. -/
structure In (tokens : List Token) (c : Cursor) : Prop where
  inside : c.index < tokens.length
  rest : c.rest = tokens.drop c.index

/-- The way from a cursor to another leads over some tokens, none of them the end of the text. -/
def Reaches (c c' : Cursor) : Prop :=
  ∃ ts, c.rest = ts ++ c'.rest ∧ c'.index = c.index + ts.length ∧ ∀ t ∈ ts, t.lexeme ≠ .endOfText

/-- The way from a cursor to another leads over a token at least. -/
structure Passes (c c' : Cursor) : Prop where
  reaches : c.Reaches c'
  further : c.index < c'.index

namespace Reaches

variable {c c' c'' : Cursor}

theorem refl (c : Cursor) : c.Reaches c := ⟨[], rfl, rfl, fun _ h => nomatch h⟩

/-- Ways may be put together. -/
theorem trans (h : c.Reaches c') (h' : c'.Reaches c'') : c.Reaches c'' := by
  obtain ⟨ts, hts, hindex, hend⟩ := h
  obtain ⟨us, hus, hindex', hend'⟩ := h'
  refine ⟨ts ++ us, ?_, ?_, List.forall_mem_append.mpr ⟨hend, hend'⟩⟩
  · rw [hts, hus, List.append_assoc]
  · rw [hindex', hindex, List.length_append, Nat.add_assoc]

/-- No way leads back. -/
theorem index_le (h : c.Reaches c') : c.index ≤ c'.index := by
  obtain ⟨ts, -, hindex, -⟩ := h
  exact hindex ▸ Nat.le_add_right _ _

/-- No tokens are added on the way. -/
theorem length_le (h : c.Reaches c') : c'.rest.length ≤ c.rest.length := by
  obtain ⟨ts, hts, -, -⟩ := h
  rw [hts, List.length_append]
  exact Nat.le_add_left _ _

/-- A way over a token may begin with any way. -/
theorem passes (h : c.Reaches c') (h' : c'.Passes c'') : c.Passes c'' :=
  ⟨h.trans h'.reaches, Nat.lt_of_le_of_lt h.index_le h'.further⟩

/-- What is reached from within a text is within the text. -/
theorem stays {tokens : List Token} (htokens : Grammar.EndsOnce tokens) (h : c.Reaches c')
    (hin : c.In tokens) : c'.In tokens := by
  obtain ⟨ts, hts, hindex, hend⟩ := h
  have hdrop : c'.rest = tokens.drop c'.index := by
    rw [hindex, ← List.drop_drop, ← hin.rest, hts, List.drop_left]
  refine ⟨?_, hdrop⟩
  -- the last token is the end of the text, so that it is still ahead
  obtain ⟨front, last, rfl, hlast, -⟩ := htokens
  have hmem : last ∈ ts ++ c'.rest := by
    rw [← hts, hin.rest, List.drop_append_of_le_length]
    · exact List.mem_append_right _ (List.mem_singleton_self last)
    · have hinside := hin.inside
      rw [List.length_append] at hinside
      exact Nat.le_of_lt_succ hinside
  have hrest : c'.rest ≠ [] := by
    intro hnil
    rw [hnil, List.append_nil] at hmem
    exact hend last hmem hlast
  rw [hdrop] at hrest
  exact Nat.lt_of_not_le fun hle => hrest (List.drop_eq_nil_of_le hle)

end Reaches

namespace Passes

variable {c c' c'' : Cursor}

/-- A way over a token may go on in any way. -/
theorem reach (h : c.Passes c') (h' : c'.Reaches c'') : c.Passes c'' :=
  ⟨h.reaches.trans h', Nat.lt_of_lt_of_le h.further h'.index_le⟩

theorem trans (h : c.Passes c') (h' : c'.Passes c'') : c.Passes c'' := h.reach h'.reaches

/-- Fewer tokens remain. -/
theorem length_lt (h : c.Passes c') : c'.rest.length < c.rest.length := by
  obtain ⟨⟨ts, hts, hindex, -⟩, hfurther⟩ := h
  rw [hts, List.length_append]
  omega

end Passes

/-! ## Steps of a cursor -/

/-- A step leads over a token, unless the text ends there. -/
theorem passes_advance {c : Cursor} {l : Lexeme} (h : c.lexeme = l) (hl : l ≠ .endOfText) :
    c.Passes c.advance := by
  obtain ⟨i, r, s⟩ := c
  obtain ⟨t, rest, rfl, ht⟩ := (lexeme_eq_iff hl).mp h
  rw [advance_cons ht hl]
  exact ⟨⟨[t], rfl, rfl, List.forall_mem_singleton.mpr (ht ▸ hl)⟩, Nat.lt_succ_self i⟩

/-- At the end of the text a step leads nowhere. -/
theorem reaches_advance (c : Cursor) : c.Reaches c.advance := by
  by_cases h : c.lexeme = .endOfText
  · have hstay : c.advance = c := by
      obtain ⟨i, r, s⟩ := c
      cases r with
      | nil => rfl
      | cons t rest =>
          rw [advance]
          exact if_pos h
    rw [hstay]
    exact .refl c
  · exact (passes_advance rfl h).reaches

theorem reaches_bind (c : Cursor) (name : Text) : c.Reaches (c.bind name) := .refl c

theorem reaches_use (c : Cursor) (name : Text) : c.Reaches (c.use name) := .refl c

/-- Skipping semicolons steps over them, and not over the end of the text. -/
theorem reaches_skipSemicolons (c : Cursor) : c.Reaches c.skipSemicolons := by
  obtain ⟨i, r, s⟩ := c
  obtain ⟨semis, rest, rfl, hsemis, hskip⟩ := exists_skipSemicolons i r s
  rw [hskip]
  refine ⟨semis, rfl, rfl, fun t ht => ?_⟩
  rw [hsemis t ht]
  exact Lexeme.noConfusion

end Cursor

/-- The look for another statement steps over one semicolon at most. -/
theorem Grammar.reaches_skipBeforeElse (c : Cursor) : c.Reaches (skipBeforeElse c) := by
  rw [skipBeforeElse]
  split
  · exact c.reaches_advance
  · exact .refl c

end Formulary
