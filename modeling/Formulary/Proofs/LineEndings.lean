import Formulary.Formula
import Formulary.Proofs.Source.LineEndings
import Formulary.Proofs.Token.Segmentation

/-!
# Error reports under another line ending

A text that is refused is also refused with a carriage return before every line feed, for the same
cause: a carriage return is one more blank in a gap that breaks the line already, so that the tokens
stay the same and only move. A fault shows at a token, and there the two reports agree. It may also
show at the end of the text, which is reported at the last unit. If that unit is a line feed, the
report loses the line that it ends.

- `scanFrom_withReturns` compares the scans of the two texts.
- `Formula.parseWithin_withReturns` carries it over to refusals, and `Formula.shows_of_error` says
  where a fault can show.
- `Text.EndsLine` is the end whose report changes, and `Place.agree_of_shows` compares the places of
  all the others.
- `Formula.report_withReturns` is the statement about reports.
-/

namespace Formulary

variable {ρ : ProviderId}

/-! ## Lexemes -/

theorem CodeUnit.separates_carriageReturn : CodeUnit.Separates 0x0D :=
  ⟨by decide, by decide, fun op => by cases op <;> decide⟩

/-- A line feed is a blank. -/
theorem CodeUnit.ne_lineFeed {u : CodeUnit} (hu : u.isBlank = false) : u ≠ 0x0A := by
  rintro rfl
  cases hu

/-- A lexeme ends before a line break, whichever it is. -/
theorem Lexeme.first_withReturns (unit : CodeUnit) (rest : Text) :
    Lexeme.first unit rest.withReturns = Lexeme.first unit rest := by
  rcases Text.split_first rest with hnone | ⟨line, more, rfl, hline⟩
  · rw [Text.withReturns_eq_self hnone]
  · rw [Text.withReturns_append, Text.withReturns_lineFeed, Text.withReturns_eq_self hline,
      first_append CodeUnit.separates_carriageReturn, first_append CodeUnit.separates_lineFeed]

/-- No line feed stands within a lexeme, so that its text stays as it is. -/
theorem Lexeme.lineFeed_not_mem_text {unit : CodeUnit} {rest : Text} {l : Lexeme}
    (h : Lexeme.first unit rest = .ok l) : 0x0A ∉ l.text := by
  have hclass : ∀ {p : CodeUnit → Bool} {text : Text}, p 0x0A = false →
      0x0A ∉ text.takeWhile p := by
    intro p text hp hmem
    rw [List.all_eq_true.mp List.all_takeWhile _ hmem] at hp
    cases hp
  rcases first_cases h with ⟨-, rfl, -⟩ | ⟨-, -, rfl⟩ | ⟨-, -, op, -, rfl⟩ | ⟨-, -, -, m, -, rfl⟩
  · exact hclass CodeUnit.separates_lineFeed.numeral
  · exact hclass CodeUnit.separates_lineFeed.name
  · exact CodeUnit.separates_lineFeed.operator op
  · show 0x0A ∉ m.spelling
    cases m <;> decide

/-! ## Scans -/

/-- The token where it comes to stand when carriage returns are put into its text. -/
def PlacedToken.moved (text : Text) (t : PlacedToken) : PlacedToken :=
  { t with position := text.moved t.position }

/-- What a scan gives, with every position moved. -/
def movedScan (text : Text) :
    Except PlacedFault (List PlacedToken) → Except PlacedFault (List PlacedToken)
  | .ok tokens => .ok (tokens.map (·.moved text))
  | .error e => .error { e with position := text.moved e.position }

/-- A token is placed where it has moved to. -/
theorem ScanState.place_moved {before : Text} (s : ScanState) (l : Lexeme)
    (hs : s.position = before.length) (text : Text) :
    (s.place l).moved (before ++ text)
      = ScanState.place { s with position := before.withReturns.length } l := by
  simp only [place, PlacedToken.moved, hs, Text.moved_length]

theorem movedScan_map (text : Text) (r : Except PlacedFault (List PlacedToken)) (t : PlacedToken) :
    movedScan text (r.map (t :: ·)) = (movedScan text r).map (t.moved text :: ·) := by
  cases r <;> rfl

/-- A scan of the text only moves its tokens when carriage returns are put in, whatever stands
before the text. -/
def Moves (text : Text) : Prop :=
  ∀ (before : Text) (s : ScanState), s.position = before.length →
    scanFrom 0 text.withReturns { s with position := before.withReturns.length }
      = movedScan (before ++ text) (scanFrom 0 text s)

/-- At the end of the text the position has moved by all the returns. -/
theorem moves_nil : Moves [] := by
  intro before s hs
  rw [scanFrom, movedScan, List.map_singleton, ScanState.place_moved s .endOfText hs []]
  rfl

/-- A line feed becomes two blanks, and both say that a line has ended. -/
theorem moves_blank {unit : CodeUnit} {rest : Text} (hblank : unit.isBlank = true)
    (h : Moves rest) : Moves (unit :: rest) := by
  intro before s hs
  have hrest := h (before ++ [unit]) (s.skipBlank unit)
    (by rw [ScanState.skipBlank, hs, List.length_append, List.length_singleton])
  rw [List.append_assoc, List.singleton_append] at hrest
  rw [scanFrom, if_pos hblank, ← hrest]
  by_cases hfeed : unit = 0x0A
  · -- the two blanks of the line break leave the state that the one leaves
    subst hfeed
    rw [Text.withReturns_lineFeed, scanFrom, if_pos (by decide), scanFrom, if_pos (by decide)]
    congr 1
    simp [ScanState.skipBlank, CodeUnit.isLineBreak, CodeUnit.isLineFeed, Text.withReturns]
  · rw [Text.withReturns_cons_of_ne hfeed, scanFrom, if_pos hblank, Text.withReturns_append,
      Text.withReturns_cons_of_ne hfeed, List.length_append]
    rfl

/-- A fault shows at the unit that it showed at before. -/
theorem moves_fault {unit : CodeUnit} {rest : Text} {fault : Fault} (hblank : unit.isBlank = false)
    (hfirst : Lexeme.first unit rest = .error fault) : Moves (unit :: rest) := by
  intro before s hs
  have hblank' := Bool.eq_false_iff.mp hblank
  rw [Text.withReturns_cons_of_ne (CodeUnit.ne_lineFeed hblank), scanFrom, scanFrom,
    if_neg hblank', if_neg hblank', Lexeme.first_withReturns, hfirst]
  dsimp only
  rw [movedScan, hs, Text.moved_length]

/-- A lexeme is found again, and the scan goes on behind it. -/
theorem moves_lexeme {unit : CodeUnit} {rest more : Text} {l : Lexeme}
    (hblank : unit.isBlank = false) (hfirst : Lexeme.first unit rest = .ok l)
    (hmore : unit :: rest = l.text ++ more) (h : Moves more) : Moves (unit :: rest) := by
  intro before s hs
  have hfeeds := Lexeme.lineFeed_not_mem_text hfirst
  have hreturns : unit :: rest.withReturns = l.text ++ more.withReturns := by
    rw [← Text.withReturns_cons_of_ne (CodeUnit.ne_lineFeed hblank), hmore, Text.withReturns_append,
      Text.withReturns_eq_self hfeeds]
  have hscan := h (before ++ l.text) (s.pass l) (by rw [ScanState.pass, hs, List.length_append])
  rw [List.append_assoc, ← hmore, Text.withReturns_append, Text.withReturns_eq_self hfeeds,
    List.length_append] at hscan
  rw [Text.withReturns_cons_of_ne (CodeUnit.ne_lineFeed hblank),
    scanFrom_first s hblank hfirst hmore,
    scanFrom_first _ hblank ((Lexeme.first_withReturns unit rest).trans hfirst) hreturns,
    movedScan_map, ← hscan, ScanState.place_moved s l hs]
  rfl

/-- Carriage returns before the line feeds of a text move its tokens and nothing else. -/
theorem scanFrom_moves (text : Text) : Moves text := by
  -- a scan goes on behind a whole lexeme, so the induction is on the length
  induction hlength : text.length using Nat.strongRecOn generalizing text with
  | ind n ih =>
      subst hlength
      cases text with
      | nil => exact moves_nil
      | cons unit rest =>
          cases hblank : unit.isBlank with
          | true => exact moves_blank hblank (ih _ (by simp) rest rfl)
          | false =>
              cases hfirst : Lexeme.first unit rest with
              | error fault => exact moves_fault hblank hfirst
              | ok l =>
                  have hl := Lexeme.isFirst_of_first hfirst
                  obtain ⟨more, hmore⟩ := hl.text_isPrefix
                  have hpos := List.length_pos_iff.mpr
                    (hl.text_ne_nil (Lexeme.ne_endOfText_of_first hfirst))
                  refine moves_lexeme hblank hfirst hmore.symm (ih _ ?_ more rfl)
                  rw [← hmore, List.length_append]
                  omega

/-- The scan of a whole text only moves its tokens, or its fault. -/
theorem scanFrom_withReturns (text : Text) :
    scanFrom 0 text.withReturns .start = movedScan text (scanFrom 0 text .start) :=
  scanFrom_moves text [] .start rfl

/-! ## Where a fault shows -/

/-- A position at which a fault can show: the end of the text, or a unit that is no blank. -/
def Text.Shows (text : Text) (position : Nat) : Prop :=
  position = text.length
    ∨ ∃ before u rest, text = before ++ u :: rest ∧ position = before.length ∧ u.isBlank = false

/-- A fault can show where a unit comes that is no blank. -/
theorem Text.shows_of_drop {text rest : Text} {position : Nat} {u : CodeUnit}
    (h : text.drop position = u :: rest) (hu : u.isBlank = false) : text.Shows position := by
  have hlt : position < text.length := by
    refine Nat.lt_of_not_le fun hle => ?_
    rw [List.drop_eq_nil_iff.mpr hle] at h
    cases h
  refine .inr ⟨text.take position, u, rest, ?_, ?_, hu⟩
  · rw [← h, List.take_append_drop]
  · rw [List.length_take, Nat.min_eq_left (Nat.le_of_lt hlt)]

/-- A token stands where a fault can show. -/
theorem Sits.shows {text : Text} {start : Nat} {t : PlacedToken} (h : Sits text start t) :
    text.Shows t.position := by
  cases hdrop : text.drop t.position with
  | nil =>
      have hle := List.drop_eq_nil_iff.mp hdrop
      exact .inl (Nat.le_antisymm h.gap.inside hle)
  | cons u rest => exact Text.shows_of_drop hdrop (hdrop ▸ h.lexeme).isBlank_eq_false

/-- So does the unit that a text is stuck at. -/
theorem Stuck.shows {text : Text} {position : Nat} (h : Stuck text position) :
    text.Shows position := by
  cases hdrop : text.drop position with
  | nil => exact absurd (List.drop_eq_nil_iff.mp hdrop) (Nat.not_le.mpr h.lt_length)
  | cons u rest => exact Text.shows_of_drop hdrop (h.unblank u (by rw [hdrop]; rfl))

namespace Formula

/-- A token stands where a fault can show, and so does the end of the text. -/
theorem shows_positionOf {text : Text} {tokens : List PlacedToken}
    (h : scanFrom 0 text .start = .ok tokens) (index : Nat) :
    text.Shows (positionOf text tokens index) := by
  rw [positionOf]
  cases htoken : tokens[index]? with
  | none => exact .inl rfl
  | some t =>
      obtain ⟨before, after, htokens⟩ := List.append_of_mem (List.mem_of_getElem? htoken)
      exact ((scanFrom_eq_ok_iff.mp h).sits before t after htokens).shows

/-- An error shows at a token, at a unit that starts none, or at the end of the text. -/
theorem shows_of_error {limit : Nat} {text : Text} {e : ParseError}
    (h : parseWithin ρ limit text = .error e) : e.source = text ∧ text.Shows e.position := by
  rw [parseWithin, parseAt, tokenize] at h
  cases hscan : scanFrom 0 text .start with
  | error fault =>
      rw [hscan] at h
      cases h
      exact ⟨rfl, (scanFrom_eq_error_iff.mp hscan).1.shows⟩
  | ok tokens =>
      rw [hscan] at h
      dsimp only [Bind.bind, Except.bind] at h
      split at h
      · cases h
      · cases h
        exact ⟨rfl, shows_positionOf hscan _⟩

/-! ## Refusals -/

/-- The position of a token, or of the end of the text, moves with it. -/
theorem positionOf_moved (text : Text) (tokens : List PlacedToken) (index : Nat) :
    positionOf text.withReturns (tokens.map (·.moved text)) index
      = text.moved (positionOf text tokens index) := by
  rw [positionOf, positionOf, List.getElem?_map]
  cases tokens[index]? with
  | some t => rfl
  | none =>
      dsimp only [Option.map_none]
      rw [Text.moved, List.take_length]

/-- A text that is refused is refused for the same cause under the other line ending. -/
theorem parseWithin_withReturns {limit : Nat} {text : Text} {e : ParseError}
    (h : parseWithin ρ limit text = .error e) :
    parseWithin ρ limit text.withReturns
      = .error ⟨e.fault, text.withReturns, text.moved e.position⟩ := by
  rw [parseWithin, parseAt, tokenize] at h
  rw [parseWithin, parseAt, tokenize, scanFrom_withReturns]
  cases hscan : scanFrom 0 text .start with
  | error fault =>
      rw [hscan] at h
      cases h
      rfl
  | ok tokens =>
      have htokens : (tokens.map (·.moved text)).map (·.toToken) = tokens.map (·.toToken) := by
        rw [List.map_map]
        rfl
      rw [hscan] at h
      dsimp only [Bind.bind, Except.bind, movedScan] at h ⊢
      rw [htokens]
      split at h
      · cases h
      · cases h
        rw [positionOf_moved]

end Formula

/-! ## Reports -/

/-- The position is the end of the text, behind the line feed of a line that is not empty. -/
def Text.EndsLine (text : Text) (position : Nat) : Prop :=
  position = text.length ∧ ∃ line u, text = line ++ [u, 0x0A] ∧ u.isLineBreak = false

/-- A text ends a line exactly if its last unit is the line feed of a line that is not empty. -/
theorem Text.endsLine_concat {before : Text} {u : CodeUnit} :
    (before ++ [u]).EndsLine (before ++ [u]).length
      ↔ u = 0x0A ∧ ∃ line v, before = line ++ [v] ∧ v.isLineBreak = false := by
  constructor
  · rintro ⟨-, line, v, heq, hv⟩
    have hpair : line ++ [v, 0x0A] = (line ++ [v]) ++ [0x0A] := by
      rw [List.append_assoc, List.singleton_append]
    rw [hpair] at heq
    obtain ⟨hbefore, hu⟩ := List.append_inj' heq rfl
    exact ⟨(List.cons.inj hu).1, line, v, hbefore, hv⟩
  · rintro ⟨rfl, line, v, rfl, hv⟩
    exact ⟨rfl, line, v, by rw [List.append_assoc, List.singleton_append], hv⟩

namespace Place

/-- The places have the same line and column. They have the same text of the line and the same
pointer exactly if the line is not lost. -/
structure Agree (lost : Prop) (p q : Place) : Prop where
  line : q.line = p.line
  column : q.column = p.column
  lineText : q.lineText = p.lineText ↔ ¬ lost
  pointer : q.pointer = p.pointer ↔ ¬ lost

/-- Places that differ in their offset only agree. -/
theorem agree_of_offset {lost : Prop} (h : ¬ lost) (p : Place) (offset : Nat) :
    Agree lost p { p with offset := offset } :=
  ⟨rfl, rfl, iff_of_true rfl h, iff_of_true rfl h⟩

/-- The end of a text is reported at its last unit, which may be the line feed that ends a line. -/
theorem agree_end (text : Text) :
    Agree (text.EndsLine text.length) (locate text text.length)
      (locate text.withReturns text.withReturns.length) := by
  rcases List.eq_nil_or_concat text with rfl | ⟨before, u, htext⟩
  · refine agree_of_offset ?_ (locate [] 0) 0
    rintro ⟨-, line, u, hnil, -⟩
    exact List.append_ne_nil_of_right_ne_nil line (List.cons_ne_nil _ _) hnil.symm
  · rw [List.concat_eq_append] at htext
    subst htext
    rw [Text.endsLine_concat]
    by_cases hu : u = 0x0A
    · subst hu
      have hline : lineBefore before ++ lineBehind [0x0A] = lineBefore before := List.append_nil _
      rw [locate_withReturns_lineFeed, locate_length, locate_append before (List.cons_ne_nil _ _),
        hline, eq_self, true_and]
      exact ⟨rfl, rfl, eq_comm.trans lineBefore_eq_nil_iff,
        (pointerAt_one_iff before).trans lineBefore_eq_nil_iff⟩
    · rw [locate_withReturns_length hu]
      exact agree_of_offset (fun hends => hu hends.1) _ _

/-- Where a fault can show, the places under both line endings agree, except behind the line feed of
a line that is not empty. -/
theorem agree_of_shows {text : Text} {position : Nat} (h : text.Shows position) :
    Agree (text.EndsLine position) (locate text position)
      (locate text.withReturns (text.moved position)) := by
  rcases h with rfl | ⟨before, u, rest, rfl, rfl, hu⟩
  · rw [Text.moved, List.take_length]
    exact agree_end text
  · rw [Text.moved_length, locate_withReturns (CodeUnit.ne_lineFeed hu)]
    refine agree_of_offset (fun hends => ?_) _ _
    have hlength := hends.1
    rw [List.length_append, List.length_cons] at hlength
    omega

end Place

/-- With a carriage return before every line feed, a text that is refused is refused for the same
cause, at the same line and column. The text of the line and the pointer are the same as well,
except exactly if the fault shows behind the line feed of a line that is not empty. -/
theorem Formula.report_withReturns {text : Text} {e : ParseError} (h : parse ρ text = .error e) :
    ∃ e', parse ρ text.withReturns = .error e'
      ∧ e'.fault.kind = e.fault.kind ∧ e'.fault.reason = e.fault.reason
      ∧ e'.place.line = e.place.line ∧ e'.place.column = e.place.column
      ∧ (e'.place.lineText = e.place.lineText ↔ ¬ text.EndsLine e.position)
      ∧ (e'.place.pointer = e.place.pointer ↔ ¬ text.EndsLine e.position) := by
  obtain ⟨rfl, hshows⟩ := shows_of_error h
  have hagree := Place.agree_of_shows hshows
  exact ⟨_, parseWithin_withReturns h, rfl, rfl, hagree.line, hagree.column, hagree.lineText,
    hagree.pointer⟩

/-- A parenthesis too many on the second of three lines has the same report under both endings. -/
theorem Formula.report_withReturns_second_line :
    ∃ e e', parse ⟨0⟩ (Text.ofString "let a = 1\nlet b = a)\na\n") = .error e
      ∧ parse ⟨0⟩ (Text.ofString "let a = 1\r\nlet b = a)\r\na\r\n") = .error e'
      ∧ e'.place.line = e.place.line ∧ e'.place.column = e.place.column
      ∧ e'.place.lineText = e.place.lineText ∧ e'.place.pointer = e.place.pointer := by
  have h : parse ⟨0⟩ (Text.ofString "let a = 1\nlet b = a)\na\n")
      = .error ⟨.unexpectedToken (Text.ofString ")"),
        Text.ofString "let a = 1\nlet b = a)\na\n", 19⟩ := rfl
  have hinside : ¬ (Text.ofString "let a = 1\nlet b = a)\na\n").EndsLine 19 :=
    fun hends => absurd hends.1 (by decide)
  obtain ⟨e', h', -, -, hline, hcolumn, htext, hpointer⟩ := report_withReturns h
  exact ⟨_, e', h, h', hline, hcolumn, htext.mpr hinside, hpointer.mpr hinside⟩

/-- A line that misses an operand is shown, with a pointer behind it, if it ends in a line feed
alone. If a carriage return stands before the line feed, an empty line is shown in its place. -/
theorem Formula.report_loses_last_line :
    ∃ e e', parse ⟨0⟩ (Text.ofString "let a = 1\nlet b = a +\n") = .error e
      ∧ parse ⟨0⟩ (Text.ofString "let a = 1\r\nlet b = a +\r\n") = .error e'
      ∧ e.place = ⟨21, 2, 12, Text.ofString "let b = a +", Text.ofString "           ^"⟩
      ∧ e'.place = ⟨23, 2, 12, [], Text.ofString "^"⟩ :=
  ⟨⟨.unexpectedEnd, Text.ofString "let a = 1\nlet b = a +\n", 22⟩,
    ⟨.unexpectedEnd, Text.ofString "let a = 1\r\nlet b = a +\r\n", 24⟩, rfl, rfl, rfl, rfl⟩

end Formulary
