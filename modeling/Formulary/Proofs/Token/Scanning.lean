import Formulary.Token.Scan

/-!
# What scanning leaves

- `tokenize_eq_ok_iff` and `tokenize_eq_error_iff` go back from a text to the scan of it.
- `scanFrom_end` says that the end of the text is the last token and no other.
- `tokenize_single_iff` says that it is the only token exactly of a blank text.
-/

namespace Formulary

/-- The four kinds of lexemes that a text may start with. -/
theorem Lexeme.first_cases {unit : CodeUnit} {rest : Text} {l : Lexeme}
    (h : Lexeme.first unit rest = .ok l) :
    (unit.isNumeral = true ∧ l = .number ((unit :: rest).takeWhile CodeUnit.isNumeral)
        ∧ Text.writesNumber ((unit :: rest).takeWhile CodeUnit.isNumeral) = true)
      ∨ (unit.isNumeral = false ∧ unit.startsName = true
        ∧ l = .name ((unit :: rest).takeWhile CodeUnit.continuesName))
      ∨ (unit.isNumeral = false ∧ unit.startsName = false
        ∧ ∃ op, Operator.first? (unit :: rest) = some op ∧ l = .operator op)
      ∨ (unit.isNumeral = false ∧ unit.startsName = false
        ∧ Operator.first? (unit :: rest) = none
        ∧ ∃ m, Mark.first? (unit :: rest) = some m ∧ l = .mark m) := by
  rw [Lexeme.first] at h
  dsimp only at h
  split at h
  · rename_i hnum
    split at h
    · rename_i hrun
      exact .inl ⟨hnum, (Except.ok.inj h).symm, hrun⟩
    · exact nomatch h
  · rename_i hnum
    have hnum' := Bool.eq_false_iff.mpr hnum
    split at h
    · rename_i hname
      exact .inr (.inl ⟨hnum', hname, (Except.ok.inj h).symm⟩)
    · rename_i hname
      have hname' := Bool.eq_false_iff.mpr hname
      split at h
      · rename_i op hop
        exact .inr (.inr (.inl ⟨hnum', hname', op, hop, (Except.ok.inj h).symm⟩))
      · rename_i hop
        split at h
        · rename_i m hm
          exact .inr (.inr (.inr ⟨hnum', hname', hop, m, hm, (Except.ok.inj h).symm⟩))
        · exact nomatch h

theorem Lexeme.ne_endOfText_of_first {unit : CodeUnit} {rest : Text} {l : Lexeme}
    (h : Lexeme.first unit rest = .ok l) : l ≠ .endOfText := by
  rcases first_cases h with ⟨-, rfl, -⟩ | ⟨-, -, rfl⟩ | ⟨-, -, op, -, rfl⟩ | ⟨-, -, -, m, -, rfl⟩
  all_goals exact Lexeme.noConfusion

/-- The last token is the end of the text, and no other token is. -/
theorem scanFrom_end {text : Text} {skip : Nat} {s : ScanState} {tokens : List PlacedToken}
    (h : scanFrom skip text s = .ok tokens) :
    ∃ init last, tokens = init ++ [last] ∧ last.lexeme = .endOfText
      ∧ ∀ t ∈ init, t.lexeme ≠ .endOfText := by
  induction text generalizing skip s tokens with
  | nil =>
      rw [scanFrom] at h
      cases h
      exact ⟨[], _, rfl, rfl, fun _ ht => (nomatch ht)⟩
  | cons unit rest ih =>
      cases skip with
      | succ skip => exact ih h
      | zero =>
          rw [scanFrom] at h
          split at h
          · exact ih h
          · split at h
            · exact nomatch h
            · rename_i lexeme hfirst
              cases hscan : scanFrom (lexeme.text.length - 1) rest (s.pass lexeme) with
              | error e => rw [hscan] at h; exact nomatch h
              | ok others =>
                  rw [hscan] at h
                  cases h
                  obtain ⟨init, last, rfl, hlast, hinit⟩ := ih hscan
                  refine ⟨s.place lexeme :: init, last, rfl, hlast, ?_⟩
                  intro t ht
                  rcases List.mem_cons.mp ht with rfl | ht
                  · exact Lexeme.ne_endOfText_of_first hfirst
                  · exact hinit t ht

/-- The units of a lexeme already read are stepped over. -/
theorem scanFrom_skip (units more : Text) (s : ScanState) :
    scanFrom units.length (units ++ more) s = scanFrom 0 more s := by
  induction units with
  | nil => rfl
  | cons unit units ih => exact ih

theorem tokenize_eq_ok_iff {source : Text} {tokens : List PlacedToken} :
    tokenize source = .ok tokens ↔ scanFrom 0 source .start = .ok tokens := by
  rw [tokenize]
  cases scanFrom 0 source .start with
  | ok tokens' => simp
  | error e => simp

theorem tokenize_eq_error_iff {source : Text} {e : ParseError} :
    tokenize source = .error e
      ↔ e.source = source ∧ scanFrom 0 source .start = .error ⟨e.fault, e.position⟩ := by
  obtain ⟨fault, text, position⟩ := e
  rw [tokenize]
  cases scanFrom 0 source .start with
  | ok tokens => simp
  | error e =>
      obtain ⟨fault', position'⟩ := e
      simp only [Except.error.injEq, ParseError.mk.injEq, PlacedFault.mk.injEq]
      grind

/-- Blanks leave no token but the end of the text, and everything else does. -/
theorem scanFrom_single_iff {text : Text} {s : ScanState} :
    (∃ t, scanFrom 0 text s = .ok [t]) ↔ text.isBlank = true := by
  induction text generalizing s with
  | nil => exact ⟨fun _ => rfl, fun _ => ⟨_, rfl⟩⟩
  | cons unit rest ih =>
      rw [scanFrom, Text.isBlank, List.all_cons]
      by_cases hblank : unit.isBlank = true
      · rw [if_pos hblank, ih, hblank, Bool.true_and, Text.isBlank]
      · rw [if_neg hblank, Bool.eq_false_iff.mpr hblank, Bool.false_and]
        refine ⟨?_, fun h => Bool.noConfusion h⟩
        rintro ⟨t, ht⟩
        cases hfirst : Lexeme.first unit rest with
        | error fault =>
            rw [hfirst] at ht
            cases ht
        | ok lexeme =>
            rw [hfirst] at ht
            -- the end of the text stands behind the lexeme
            cases hscan : scanFrom (lexeme.text.length - 1) rest (s.pass lexeme) with
            | error e =>
                dsimp only at ht
                rw [hscan] at ht
                cases ht
            | ok others =>
                dsimp only at ht
                rw [hscan] at ht
                obtain ⟨init, last, rfl, -⟩ := scanFrom_end hscan
                have hlist : s.place lexeme :: (init ++ [last]) = [t] := Except.ok.inj ht
                exact absurd (List.cons.inj hlist).2 (by simp)

/-- A text has no token but its end exactly if it is blank. -/
theorem tokenize_single_iff {text : Text} :
    (∃ t, tokenize text = .ok [t]) ↔ text.isBlank = true := by
  rw [← scanFrom_single_iff (s := .start), tokenize]
  cases scanFrom 0 text .start with
  | ok tokens => simp
  | error e => simp

end Formulary
