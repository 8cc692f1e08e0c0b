import Formulary.Proofs.Grammar.Program
import Formulary.Proofs.Text.Classes
import Formulary.Proofs.Token.Separation

/-!
# Words and written texts

A printed text is a row of words with one space between neighbours. A word carries the proof that
its lexeme is what a scan finds in the word's own text, so that a row of words is scanned back into
its lexemes whatever they are.

- `Numeral`, `Identifier` and `Target` are the literals and names that can be written.
- `Word` is a lexeme that is read back from its text, and `write` puts words into a text.
- `tokenize_write` says that the tokens of a written text are its words.
-/

namespace Formulary.Printing

/-! ## Literals and names -/

/-- The text of a number: digits around at most one point. -/
structure Numeral where
  digits : Text
  run : digits.all CodeUnit.isNumeral = true
  number : digits.writesNumber = true

/-- The text of a name. -/
structure Identifier where
  units : Text
  starts : units.head?.any CodeUnit.startsName = true
  continues : units.all CodeUnit.continuesName = true

/-- The words that open a statement or part of one. -/
def reserved : List Text := ["let", "if", "else"].map Text.ofString

/-- A name that can be assigned to. -/
structure Target extends Identifier where
  plain : units ∉ reserved

/-! ## Words -/

/-- A lexeme that a scan of its own text finds. -/
def ReadsBack (l : Lexeme) : Prop :=
  ∃ unit rest, l.text = unit :: rest ∧ unit.isBlank = false ∧ Lexeme.first unit rest = .ok l

/-- A lexeme that can be written. -/
structure Word where
  lexeme : Lexeme
  readsBack : ReadsBack lexeme

theorem readsBack_operator (op : Operator) : ReadsBack (.operator op) := by
  cases op <;> exact ⟨_, _, rfl, by decide, by rfl⟩

theorem readsBack_mark (m : Mark) : ReadsBack (.mark m) := by
  cases m <;> exact ⟨_, _, rfl, by decide, by rfl⟩

theorem takeWhile_eq_self {p : CodeUnit → Bool} {text : Text} (h : text.all p = true) :
    text.takeWhile p = text := by
  induction text with
  | nil => rfl
  | cons unit text ih =>
      rw [List.all_cons, Bool.and_eq_true] at h
      rw [List.takeWhile_cons_of_pos h.1, ih h.2]

theorem Numeral.readsBack (n : Numeral) : ReadsBack (.number n.digits) := by
  obtain ⟨digits, run, number⟩ := n
  cases digits with
  | nil => exact nomatch number
  | cons unit rest =>
      have hunit : unit.isNumeral = true := List.all_eq_true.mp run unit (by simp)
      refine ⟨unit, rest, rfl, CodeUnit.isBlank_eq_false_of_isNumeral hunit, ?_⟩
      rw [Lexeme.first]
      dsimp only
      rw [if_pos hunit, takeWhile_eq_self run, if_pos number]

theorem Identifier.readsBack (name : Identifier) : ReadsBack (.name name.units) := by
  obtain ⟨units, starts, continues⟩ := name
  cases units with
  | nil => exact nomatch starts
  | cons unit rest =>
      have hunit : unit.startsName = true := starts
      have hnumeral : ¬ unit.isNumeral = true :=
        Bool.eq_false_iff.mp (CodeUnit.isNumeral_eq_false_of_startsName hunit)
      refine ⟨unit, rest, rfl, CodeUnit.isBlank_eq_false_of_startsName hunit, ?_⟩
      rw [Lexeme.first]
      dsimp only
      rw [if_neg hnumeral, if_pos hunit, takeWhile_eq_self continues]

namespace Word

def operator (op : Operator) : Word := ⟨.operator op, readsBack_operator op⟩

def mark (m : Mark) : Word := ⟨.mark m, readsBack_mark m⟩

def number (n : Numeral) : Word := ⟨.number n.digits, n.readsBack⟩

def name (name : Identifier) : Word := ⟨.name name.units, name.readsBack⟩

/-- The word as a token that goes on with the line. -/
def token (w : Word) : Token := ⟨w.lexeme, false⟩

end Word

/-- A text of some words, with a space between neighbours. -/
def write (ws : List Word) : Text := Text.join (Text.ofString " ") (ws.map (·.lexeme.text))

/-! ## The tokens of a written text -/

/-- A word in front of nothing or of a space is scanned as its lexeme. -/
theorem scanFrom_word (w : Word) (s : ScanState) {more : Text}
    (hmore : more = [] ∨ ∃ others, more = 0x20 :: others) {tokens : List PlacedToken}
    (h : scanFrom 0 more (s.pass w.lexeme) = .ok tokens) :
    scanFrom 0 (w.lexeme.text ++ more) s = .ok (s.place w.lexeme :: tokens) := by
  obtain ⟨unit, rest, htext, hblank, hfirst⟩ := w.readsBack
  have hfirst' : Lexeme.first unit (rest ++ more) = .ok w.lexeme := by
    rcases hmore with rfl | ⟨others, rfl⟩
    · rwa [List.append_nil]
    · rwa [Lexeme.first_append CodeUnit.separates_space]
  have hlength : w.lexeme.text.length - 1 = rest.length := by
    rw [htext]
    rfl
  have hscan : scanFrom (w.lexeme.text.length - 1) (rest ++ more) (s.pass w.lexeme) = .ok tokens :=
    by rw [hlength, scanFrom_skip, h]
  rw [htext, List.cons_append, scanFrom, if_neg (Bool.eq_false_iff.mp hblank), hfirst']
  dsimp only
  rw [hscan]
  rfl

theorem write_cons_cons (w v : Word) (ws : List Word) :
    write (w :: v :: ws) = w.lexeme.text ++ 0x20 :: write (v :: ws) := by
  show w.lexeme.text ++ Text.ofString " " ++ write (v :: ws) = _
  rw [List.append_assoc]
  rfl

theorem scanFrom_write (ws : List Word) {s : ScanState} (hs : s.sawLineBreak = false) :
    ∃ tokens, scanFrom 0 (write ws) s = .ok tokens
      ∧ tokens.map (·.toToken) = ws.map Word.token ++ [⟨.endOfText, false⟩] := by
  have hplace : ∀ l, (s.place l).toToken = ⟨l, false⟩ := by
    intro l
    rw [ScanState.place, hs, Bool.false_and]
  induction ws generalizing s with
  | nil => exact ⟨[s.place .endOfText], rfl, by rw [List.map_singleton, hplace]; rfl⟩
  | cons w ws ih =>
      cases ws with
      | nil =>
          refine ⟨[s.place w.lexeme, (s.pass w.lexeme).place .endOfText], ?_, ?_⟩
          · have htext : write [w] = w.lexeme.text ++ [] := (List.append_nil _).symm
            rw [htext]
            exact scanFrom_word w s (.inl rfl) rfl
          · rw [List.map_cons, hplace]
            rfl
      | cons v ws =>
          -- the space between the two words breaks no line
          have hspace : ((s.pass w.lexeme).skipBlank 0x20).sawLineBreak = false := rfl
          obtain ⟨tokens, htokens, hmap⟩ := ih hspace fun l => rfl
          refine ⟨s.place w.lexeme :: tokens, ?_, ?_⟩
          · rw [write_cons_cons]
            exact scanFrom_word w s (.inr ⟨_, rfl⟩) htokens
          · rw [List.map_cons, hplace, hmap]
            rfl

/-- The tokens of a written text are its words. -/
theorem tokenize_write (ws : List Word) :
    ∃ tokens, tokenize (write ws) = .ok tokens ∧ Formula.phrase tokens = ws.map Word.token := by
  obtain ⟨tokens, htokens, hmap⟩ := scanFrom_write ws (s := .start) rfl
  refine ⟨tokens, tokenize_eq_ok_iff.mpr htokens, ?_⟩
  rw [Formula.phrase, List.map_dropLast, hmap, List.dropLast_concat]

end Formulary.Printing
