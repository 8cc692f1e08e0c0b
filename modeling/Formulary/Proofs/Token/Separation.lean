import Formulary.Proofs.Token.FirstLexeme

/-!
# Scanning a text that is put together

A lexeme ends where a unit comes that no lexeme goes on with. Before such a unit, the tokens of a
text do not depend on what follows, and behind it they depend on what came before only through the
open parentheses and a line break.

- `CodeUnit.Separates` are the units that end every lexeme.
- `scanFrom_append` scans a text, a separating unit and another text in two parts.
- `scanFrom_shift` says what the state at the start of a scan changes: the first token may get a
  line break before it, and nothing else.
-/

namespace Formulary

/-- A unit that no lexeme goes on with. -/
structure CodeUnit.Separates (u : CodeUnit) : Prop where
  numeral : u.isNumeral = false
  name : u.continuesName = false
  operator : ∀ op : Operator, u ∉ op.spelling

theorem CodeUnit.separates_space : CodeUnit.Separates 0x20 :=
  ⟨by decide, by decide, fun op => by cases op <;> decide⟩

theorem CodeUnit.separates_lineFeed : CodeUnit.Separates 0x0A :=
  ⟨by decide, by decide, fun op => by cases op <;> decide⟩

theorem CodeUnit.separates_semicolon : CodeUnit.Separates 0x3B :=
  ⟨by decide, by decide, fun op => by cases op <;> decide⟩

/-! ## The first lexeme -/

/-- A run ends at a unit that is not of its class, whatever follows. -/
theorem takeWhile_append_of_stop {p : CodeUnit → Bool} {u : CodeUnit} (hu : p u = false)
    (text more : Text) : (text ++ u :: more).takeWhile p = text.takeWhile p := by
  induction text with
  | nil => simp [hu]
  | cons v text ih => simp [List.takeWhile_cons, ih]

/-- A word does not reach over a unit that it does not hold. -/
theorem isPrefixOf_append_of_not_mem {word : Text} {u : CodeUnit} (hu : u ∉ word)
    (text more : Text) : word.isPrefixOf (text ++ u :: more) = word.isPrefixOf text := by
  induction word generalizing text with
  | nil => simp
  | cons v word ih =>
      obtain ⟨hv, hword⟩ := List.ne_and_not_mem_of_not_mem_cons hu
      cases text with
      | nil => simp [List.isPrefixOf, Ne.symm hv]
      | cons w text => simp [List.isPrefixOf, ih hword]

/-- No operator reaches over a separating unit. -/
theorem Operator.first?_append {u : CodeUnit} (hu : u.Separates) (text more : Text) :
    Operator.first? (text ++ u :: more) = Operator.first? text := by
  rw [first?, first?]
  congr 1
  funext op
  exact isPrefixOf_append_of_not_mem (hu.operator op) text more

/-- A mark is one unit, so that nothing behind it counts. -/
theorem Mark.first?_cons (unit : CodeUnit) (rest rest' : Text) :
    Mark.first? (unit :: rest) = Mark.first? (unit :: rest') := by
  rw [first?, first?]
  congr 1
  funext m
  cases m <;> rfl

/-- The first lexeme is the same in front of a separating unit. -/
theorem Lexeme.first_append {u : CodeUnit} (hu : u.Separates) (unit : CodeUnit)
    (rest more : Text) : Lexeme.first unit (rest ++ u :: more) = Lexeme.first unit rest := by
  have hnumeral := takeWhile_append_of_stop hu.numeral (unit :: rest) more
  have hname := takeWhile_append_of_stop hu.name (unit :: rest) more
  have hoperator := Operator.first?_append hu (unit :: rest) more
  rw [List.cons_append] at hnumeral hname hoperator
  rw [Lexeme.first, Lexeme.first]
  simp only [hnumeral, hname, hoperator, Mark.first?_cons unit (rest ++ u :: more) rest]

/-- A lexeme is no longer than the text that it is taken from. -/
theorem Lexeme.length_text_sub_one_le {unit : CodeUnit} {rest : Text} {l : Lexeme}
    (h : Lexeme.first unit rest = .ok l) : l.text.length - 1 ≤ rest.length := by
  have := (first_eq_ok_iff.mp h).text_isPrefix.length_le
  rw [List.length_cons] at this
  omega

/-! ## One text behind another -/

/-- How many parentheses are open behind some tokens. -/
def openParens (depth : Nat) (ts : List Token) : Nat :=
  ts.foldl (fun n t => ScanState.depthAfter n t.lexeme) depth

/-- A text in front of a separating unit gives its own tokens, and the rest is scanned from the
state in which its end was reached. -/
theorem scanFrom_append {u : CodeUnit} (hu : u.Separates) {text : Text} {skip : Nat}
    {s : ScanState} {tokens : List PlacedToken} (h : scanFrom skip text s = .ok tokens)
    (hskip : skip ≤ text.length) :
    ∃ init s', tokens = init ++ [ScanState.place s' .endOfText]
      ∧ s'.depth = openParens s.depth (init.map (·.toToken))
      ∧ ∀ more, scanFrom skip (text ++ u :: more) s
        = (scanFrom 0 (u :: more) s').map (init ++ ·) := by
  induction text generalizing skip s tokens with
  | nil =>
      obtain rfl : skip = 0 := Nat.le_zero.mp hskip
      cases h
      refine ⟨[], s, rfl, rfl, fun more => ?_⟩
      rw [List.nil_append]
      cases scanFrom 0 (u :: more) s <;> rfl
  | cons unit rest ih =>
      cases skip with
      | succ skip => exact ih h (Nat.le_of_succ_le_succ hskip)
      | zero =>
          rw [scanFrom] at h
          split at h
          · rename_i hblank
            obtain ⟨init, s', rfl, hdepth, hmore⟩ := ih h (Nat.zero_le _)
            refine ⟨init, s', rfl, hdepth, fun more => ?_⟩
            rw [List.cons_append, scanFrom, if_pos hblank, hmore]
          · rename_i hblank
            split at h
            · cases h
            · rename_i lexeme hfirst
              cases hscan : scanFrom (lexeme.text.length - 1) rest (s.pass lexeme) with
              | error e =>
                  rw [hscan] at h
                  cases h
              | ok others =>
                  rw [hscan] at h
                  cases h
                  obtain ⟨init, s', rfl, hdepth, hmore⟩ :=
                    ih hscan (Lexeme.length_text_sub_one_le hfirst)
                  refine ⟨s.place lexeme :: init, s', rfl, hdepth, fun more => ?_⟩
                  rw [List.cons_append, scanFrom, if_neg hblank, Lexeme.first_append hu, hfirst]
                  dsimp only
                  rw [hmore]
                  cases scanFrom 0 (u :: more) s' <;> rfl

/-- The tokens with a line break before the first of them, if there is one. -/
def breakFirst (b : Bool) : List Token → List Token
  | [] => []
  | t :: ts => { t with lineBreakBefore := t.lineBreakBefore || b } :: ts

theorem breakFirst_false (ts : List Token) : breakFirst false ts = ts := by
  cases ts with
  | nil => rfl
  | cons t ts => rw [breakFirst, Bool.or_false]

/-- A line break before the first token leaves the last one to be dropped. -/
theorem dropLast_breakFirst (b : Bool) (ts : List Token) :
    (breakFirst b ts).dropLast = breakFirst b ts.dropLast := by
  match ts with
  | [] => rfl
  | [t] => rfl
  | t :: u :: ts => rfl

/-- States that differ in what they know of line breaks place tokens that differ in just that. -/
theorem ScanState.toToken_place {s s' : ScanState} {b : Bool} (hdepth : s'.depth = s.depth)
    (hbreak : s'.sawLineBreak = (s.sawLineBreak || b)) (l : Lexeme) :
    (s'.place l).toToken = { (s.place l).toToken with
      lineBreakBefore := (s.place l).lineBreakBefore || b && s.depth == 0 } := by
  rw [place, place, hdepth, hbreak, Bool.and_or_distrib_right]

/-- A scan that starts elsewhere, with as many parentheses open and perhaps behind a line break,
gives the same tokens but for the line break before the first. -/
theorem scanFrom_shift {text : Text} {skip : Nat} {s s' : ScanState} {b : Bool}
    {tokens : List PlacedToken} (hdepth : s'.depth = s.depth)
    (hbreak : s'.sawLineBreak = (s.sawLineBreak || b)) (h : scanFrom skip text s = .ok tokens) :
    ∃ tokens', scanFrom skip text s' = .ok tokens'
      ∧ tokens'.map (·.toToken) = breakFirst (b && s.depth == 0) (tokens.map (·.toToken)) := by
  induction text generalizing skip s s' b tokens with
  | nil =>
      cases h
      refine ⟨[s'.place .endOfText], rfl, ?_⟩
      rw [List.map_singleton, List.map_singleton, breakFirst,
        ScanState.toToken_place hdepth hbreak]
  | cons unit rest ih =>
      cases skip with
      | succ skip => exact ih hdepth hbreak h
      | zero =>
          rw [scanFrom] at h ⊢
          split at h
          · rename_i hblank
            rw [if_pos hblank]
            refine ih (s := s.skipBlank unit) hdepth ?_ h
            simp only [ScanState.skipBlank, hbreak, Bool.or_assoc, Bool.or_comm b]
          · rename_i hblank
            rw [if_neg hblank]
            split at h
            · cases h
            · rename_i lexeme hfirst
              cases hscan : scanFrom (lexeme.text.length - 1) rest (s.pass lexeme) with
              | error e =>
                  rw [hscan] at h
                  cases h
              | ok others =>
                  rw [hscan] at h
                  cases h
                  have hdepth' : (s'.pass lexeme).depth = (s.pass lexeme).depth := by
                    simp only [ScanState.pass, hdepth]
                  -- behind its first token, the two scans are in the same state
                  obtain ⟨others', hscan', hothers⟩ := ih (b := false) hdepth' rfl hscan
                  rw [Bool.false_and, breakFirst_false] at hothers
                  refine ⟨s'.place lexeme :: others', by rw [hscan']; rfl, ?_⟩
                  rw [List.map_cons, List.map_cons, breakFirst, hothers,
                    ScanState.toToken_place hdepth hbreak]

end Formulary
