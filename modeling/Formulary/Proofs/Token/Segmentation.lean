import Formulary.Proofs.Token.FirstLexeme

/-!
# Cutting a text into tokens

The tokens of a text are described by where they stand in it: one behind the other with nothing but
blanks between, each the lexeme that the rest of the text starts with, the last one the end of the
text. Line breaks and parentheses are counted in the text itself. A text has one such list of tokens,
or it can be cut up to one position and no further.

- `Segmentation` describes the tokens of a text, and `Stuck` the position at which there is no next
  one.
- `scanFrom_sits` scans one token and `scanFrom_segments` several; `segmentation_or_stuck` says that
  every text is of one of the two kinds.
- `tokenize_iff_segmentation` says that scanning finds these tokens or this position.
-/

namespace Formulary

/-- How many parentheses are open behind some units; one that closes nothing is ignored. -/
def Text.parenDepth (units : Text) : Nat :=
  units.foldl (fun depth u =>
    if u = CodeUnit.ofChar '(' then depth + 1
    else if u = CodeUnit.ofChar ')' then depth - 1 else depth) 0

/-- The position behind a token. -/
def PlacedToken.stop (t : PlacedToken) : Nat := t.position + t.lexeme.text.length

/-- Where the last of some tokens ends; without tokens, where they would have started. -/
def stopFrom (start : Nat) (ts : List PlacedToken) : Nat := ts.foldl (fun _ t => t.stop) start

/-- Nothing but blanks stands in a text from one position up to another. -/
structure Gap (text : Text) (start stop : Nat) : Prop where
  ordered : start ≤ stop
  inside : stop ≤ text.length
  blank : ∀ u ∈ text.extract start stop, u.isBlank = true

/-- A line break stands between two positions of a text, and no parenthesis is open behind it. -/
def BreaksLine (text : Text) (start stop : Nat) : Prop :=
  (∃ u ∈ text.extract start stop, u.isLineBreak = true) ∧ Text.parenDepth (text.take stop) = 0

/-- A token stands in a text as the next one behind a position. -/
structure Sits (text : Text) (start : Nat) (t : PlacedToken) : Prop where
  gap : Gap text start t.position
  lexeme : t.lexeme.IsFirst (text.drop t.position)
  lineBreak : t.lineBreakBefore = true ↔ BreaksLine text start t.position

/-- Tokens stand in a text one behind the other, from a position on. -/
structure Segments (text : Text) (start : Nat) (ts : List PlacedToken) : Prop where
  increasing : ts.Pairwise (fun t u => t.position < u.position)
  sits : ∀ before t after, ts = before ++ t :: after → Sits text (stopFrom start before) t

/-- The tokens of a whole text. The last one is the end of the text. -/
structure Segmentation (text : Text) (ts : List PlacedToken) : Prop extends Segments text 0 ts where
  ended : ∃ init last, ts = init ++ [last] ∧ last.lexeme = .endOfText ∧ last.position = text.length

/-- A text can be cut into tokens and blanks up to a position, and neither a blank nor a lexeme nor
the end of the text comes there. -/
structure Stuck (text : Text) (position : Nat) : Prop where
  reached : ∃ ts, Segments text 0 ts ∧ Gap text (stopFrom 0 ts) position
  unblank : ∀ u ∈ (text.drop position).head?, u.isBlank = false
  unread : ∀ l : Lexeme, ¬ l.IsFirst (text.drop position)

/-! ## Tokens in a text -/

namespace Sits

variable {text : Text} {start : Nat} {t : PlacedToken}

/-- A token ends within the text. -/
theorem stop_le_length (h : Sits text start t) : t.stop ≤ text.length := by
  have hlength := h.lexeme.text_isPrefix.length_le
  have hinside := h.gap.inside
  rw [List.length_drop] at hlength
  show t.position + t.lexeme.text.length ≤ text.length
  omega

/-- Before its end, a text does not end. -/
theorem ne_endOfText (h : Sits text start t) (hlt : t.position < text.length) :
    t.lexeme ≠ .endOfText := by
  intro heq
  have hfirst := h.lexeme
  rw [heq] at hfirst
  generalize hrest : text.drop t.position = rest at hfirst
  cases hfirst
  exact absurd (List.drop_eq_nil_iff.mp hrest) (Nat.not_le.mpr hlt)

theorem position_lt_stop (h : Sits text start t) (hne : t.lexeme ≠ .endOfText) :
    t.position < t.stop :=
  Nat.lt_add_of_pos_right (List.length_pos_iff.mpr (h.lexeme.text_ne_nil hne))

end Sits

namespace Segments

variable {text : Text} {start : Nat} {t : PlacedToken} {ts : List PlacedToken}

theorem nil : Segments text start [] where
  increasing := .nil
  sits := by
    intro before t after h
    exact absurd h.symm (List.append_ne_nil_of_right_ne_nil _ (List.cons_ne_nil _ _))

/-- Tokens stand one behind the other if the first does, and the others behind where it ends. -/
theorem cons_iff :
    Segments text start (t :: ts)
      ↔ Sits text start t ∧ Segments text t.stop ts ∧ ∀ u ∈ ts, t.position < u.position := by
  constructor
  · intro h
    obtain ⟨hlt, hincreasing⟩ := List.pairwise_cons.mp h.increasing
    refine ⟨h.sits [] t ts rfl, ⟨hincreasing, fun before u after hts => ?_⟩, hlt⟩
    exact h.sits (t :: before) u after (by rw [hts, List.cons_append])
  · rintro ⟨ht, hts, hlt⟩
    refine ⟨List.pairwise_cons.mpr ⟨hlt, hts.increasing⟩, fun before u after heq => ?_⟩
    cases before with
    | nil =>
        cases heq
        exact ht
    | cons v before =>
        cases heq
        exact hts.sits before u after rfl

/-- The last token ends no earlier than where the tokens start. -/
theorem le_stopFrom (h : Segments text start ts) : start ≤ stopFrom start ts := by
  induction ts generalizing start with
  | nil => exact Nat.le_refl _
  | cons t ts ih =>
      obtain ⟨ht, hts, -⟩ := cons_iff.mp h
      calc start ≤ t.position := ht.gap.ordered
        _ ≤ t.stop := Nat.le_add_right _ _
        _ ≤ stopFrom start (t :: ts) := ih hts

/-- No token stands before the position from which they are counted. -/
theorem le_position (h : Segments text start ts) : ∀ t ∈ ts, start ≤ t.position := by
  induction ts generalizing start with
  | nil => exact fun t ht => nomatch ht
  | cons t ts ih =>
      obtain ⟨ht, hts, hlt⟩ := cons_iff.mp h
      intro u hu
      rcases List.mem_cons.mp hu with rfl | hu
      · exact ht.gap.ordered
      · exact Nat.le_trans ht.gap.ordered (Nat.le_of_lt (hlt u hu))

/-- No token ends behind the last one. -/
theorem stop_le (h : Segments text start ts) : ∀ t ∈ ts, t.stop ≤ stopFrom start ts := by
  induction ts generalizing start with
  | nil => exact fun t ht => nomatch ht
  | cons t ts ih =>
      obtain ⟨-, hts, -⟩ := cons_iff.mp h
      intro u hu
      rcases List.mem_cons.mp hu with rfl | hu
      · exact hts.le_stopFrom
      · exact ih hts u hu

/-- The first of some tokens stand in the text without the others. -/
theorem of_append {more : List PlacedToken} (h : Segments text start (ts ++ more)) :
    Segments text start ts where
  increasing := (List.pairwise_append.mp h.increasing).1
  sits := by
    intro before t after hts
    refine h.sits before t (after ++ more) ?_
    rw [hts, List.append_assoc, List.cons_append]

end Segments

/-! ## Open parentheses -/

/-- Units that are no parentheses change nothing about how many are open. -/
theorem Text.parenDepth_append_plain {more : Text}
    (h : ∀ u ∈ more, u ≠ CodeUnit.ofChar '(' ∧ u ≠ CodeUnit.ofChar ')') (units : Text) :
    Text.parenDepth (units ++ more) = Text.parenDepth units := by
  rw [parenDepth, parenDepth, List.foldl_append]
  generalize List.foldl _ 0 units = depth
  induction more with
  | nil => rfl
  | cons u more ih =>
      obtain ⟨hu, hmore⟩ := List.forall_mem_cons.mp h
      rw [List.foldl_cons, if_neg hu.1, if_neg hu.2]
      exact ih hmore

/-- A class without parentheses. -/
theorem plain_of_class {p : CodeUnit → Bool} (hopen : p (CodeUnit.ofChar '(') = false)
    (hclose : p (CodeUnit.ofChar ')') = false) {units : Text} (h : ∀ u ∈ units, p u = true) :
    ∀ u ∈ units, u ≠ CodeUnit.ofChar '(' ∧ u ≠ CodeUnit.ofChar ')' := by
  intro u hu
  constructor
  · rintro rfl
    exact nomatch (h _ hu).symm.trans hopen
  · rintro rfl
    exact nomatch (h _ hu).symm.trans hclose

/-- Parentheses stand in a text as lexemes of their own, so that counting units counts marks. -/
theorem Lexeme.IsFirst.parenDepth_append {l : Lexeme} {text : Text} (h : l.IsFirst text)
    (units : Text) :
    Text.parenDepth (units ++ l.text) = ScanState.depthAfter (Text.parenDepth units) l := by
  cases h with
  | number run =>
      exact Text.parenDepth_append_plain (plain_of_class (by decide) (by decide) run.inside) units
  | name run =>
      exact Text.parenDepth_append_plain (plain_of_class (by decide) (by decide) run.inside) units
  | @operator op =>
      have hopen : op.spelling.contains (CodeUnit.ofChar '(') = false := by cases op <;> rfl
      have hclose : op.spelling.contains (CodeUnit.ofChar ')') = false := by cases op <;> rfl
      have hinside : ∀ u ∈ op.spelling, op.spelling.contains u = true :=
        fun u hu => List.contains_iff_mem.mpr hu
      exact Text.parenDepth_append_plain (plain_of_class hopen hclose hinside) units
  | @mark m =>
      rw [Lexeme.text, Text.parenDepth, List.foldl_append]
      cases m <;> rfl
  | endOfText => rw [Lexeme.text, List.append_nil]; rfl

/-! ## Scanning tokens -/

/-- A scan takes the first lexeme and goes on behind it. -/
theorem scanFrom_first {unit : CodeUnit} {rest more : Text} {l : Lexeme} (s : ScanState)
    (hblank : unit.isBlank = false) (hfirst : Lexeme.first unit rest = .ok l)
    (hmore : unit :: rest = l.text ++ more) :
    scanFrom 0 (unit :: rest) s = (scanFrom 0 more (s.pass l)).map (s.place l :: ·) := by
  have hrest : scanFrom (l.text.length - 1) rest (s.pass l) = scanFrom 0 more (s.pass l) := by
    have hne := (Lexeme.isFirst_of_first hfirst).text_ne_nil (Lexeme.ne_endOfText_of_first hfirst)
    cases htext : l.text with
    | nil => exact absurd htext hne
    | cons u units =>
        rw [htext] at hmore
        rw [(List.cons.inj hmore).2]
        exact scanFrom_skip units more _
  rw [scanFrom, if_neg (Bool.eq_false_iff.mp hblank), hfirst]
  dsimp only
  rw [hrest]
  cases scanFrom 0 more (s.pass l) <;> rfl

/-- The state of a scan at a position, where the last token ended at `start`. -/
def ScanState.behind (text : Text) (start position : Nat) : ScanState where
  position := position
  depth := Text.parenDepth (text.take position)
  sawLineBreak := (text.extract start position).any CodeUnit.isLineBreak

/-- A stretch of a text grows by the unit behind it. -/
theorem extract_succ {text : Text} {start position : Nat} (h : position < text.length)
    (hstart : start ≤ position) :
    text.extract start (position + 1) = text.extract start position ++ [text[position]] := by
  have hsub : position + 1 - start = position - start + 1 := by omega
  have hlt : position - start < (text.drop start).length := by
    rw [List.length_drop]
    omega
  have hget : (text.drop start)[position - start] = text[position] := by
    rw [List.getElem_drop]
    congr 1
    omega
  show (text.drop start).take (position + 1 - start) = (text.drop start).take (position - start) ++ _
  rw [hsub, List.take_succ_eq_append_getElem hlt, hget]

/-- A blank is stepped over, and the state knows of the line break that it may be. -/
theorem scanFrom_blank {text : Text} {start position : Nat} (h : position < text.length)
    (hstart : start ≤ position) (hblank : text[position].isBlank = true) :
    scanFrom 0 (text.drop position) (.behind text start position)
      = scanFrom 0 (text.drop (position + 1)) (.behind text start (position + 1)) := by
  have hplain : ∀ u ∈ [text[position]], u ≠ CodeUnit.ofChar '(' ∧ u ≠ CodeUnit.ofChar ')' := by
    refine plain_of_class (p := CodeUnit.isBlank) (by decide) (by decide) fun u hu => ?_
    rw [List.mem_singleton.mp hu]
    exact hblank
  have hstate : (ScanState.behind text start position).skipBlank text[position]
      = .behind text start (position + 1) := by
    rw [ScanState.behind, ScanState.behind, ScanState.skipBlank, extract_succ h hstart,
      List.any_append, List.take_succ_eq_append_getElem h, Text.parenDepth_append_plain hplain,
      List.any_cons, List.any_nil, Bool.or_false]
  rw [List.drop_eq_getElem_cons h, scanFrom, if_pos hblank, hstate]

/-- Blanks are passed over; what counts of them is whether a line ends. -/
theorem scanFrom_gap {text : Text} {start stop : Nat} (h : Gap text start stop) :
    scanFrom 0 (text.drop start) (.behind text start start)
      = scanFrom 0 (text.drop stop) (.behind text start stop) := by
  obtain ⟨hordered, hinside, hblank⟩ := h
  induction hordered with
  | refl => rfl
  | @step stop hordered ih =>
      have hlt : stop < text.length := hinside
      rw [extract_succ hlt hordered, List.forall_mem_append] at hblank
      have hunit : text[stop].isBlank = true := hblank.2 _ (List.mem_singleton_self _)
      rw [ih (Nat.le_of_lt hlt) hblank.1, scanFrom_blank hlt hordered hunit]

/-- The state of a scan places a token where it stands in the text. -/
theorem place_behind {text : Text} {start : Nat} {t : PlacedToken} (h : Sits text start t) :
    (ScanState.behind text start t.position).place t.lexeme = t := by
  have hbreak : ((text.extract start t.position).any CodeUnit.isLineBreak
      && Text.parenDepth (text.take t.position) == 0) = t.lineBreakBefore := by
    rw [Bool.eq_iff_iff, h.lineBreak, BreaksLine, Bool.and_eq_true, List.any_eq_true, beq_iff_eq]
  rw [ScanState.place, ScanState.behind, hbreak]

/-- Behind a token the state of a scan is that behind its last unit. -/
theorem pass_behind {text : Text} {start : Nat} {t : PlacedToken} (h : Sits text start t) :
    (ScanState.behind text start t.position).pass t.lexeme = .behind text t.stop t.stop := by
  obtain ⟨more, hmore⟩ := h.lexeme.text_isPrefix
  have htake : text.take t.stop = text.take t.position ++ t.lexeme.text := by
    rw [PlacedToken.stop, List.take_add, ← hmore, List.take_left]
  have hnone : text.extract t.stop t.stop = [] := by
    show (text.drop t.stop).take (t.stop - t.stop) = []
    rw [Nat.sub_self, List.take_zero]
  rw [ScanState.pass, ScanState.behind, ScanState.behind, htake, h.lexeme.parenDepth_append, hnone]
  rfl

/-- One token is scanned off the text. -/
theorem scanFrom_sits {text : Text} {start : Nat} {t : PlacedToken} (h : Sits text start t)
    (hne : t.lexeme ≠ .endOfText) :
    scanFrom 0 (text.drop start) (.behind text start start)
      = (scanFrom 0 (text.drop t.stop) (.behind text t.stop t.stop)).map (t :: ·) := by
  obtain ⟨more, hmore⟩ := h.lexeme.text_isPrefix
  obtain ⟨unit, units, hunits⟩ := List.exists_cons_of_ne_nil (h.lexeme.text_ne_nil hne)
  have hdrop : text.drop t.stop = more := by
    rw [PlacedToken.stop, ← List.drop_drop, ← hmore, List.drop_left]
  have hfirst := h.lexeme
  rw [← hmore, hunits, List.cons_append] at hfirst
  have hlength : t.lexeme.text.length - 1 = units.length := by rw [hunits]; rfl
  rw [scanFrom_gap h.gap, ← hmore, hunits, List.cons_append, scanFrom,
    if_neg (Bool.eq_false_iff.mp hfirst.isBlank_eq_false), Lexeme.first_of_isFirst hfirst]
  dsimp only
  rw [hlength, scanFrom_skip, pass_behind h, place_behind h, hdrop]
  cases scanFrom 0 more (.behind text t.stop t.stop) <;> rfl

/-- Several tokens are scanned off the text. -/
theorem scanFrom_segments {text : Text} {start : Nat} {ts : List PlacedToken}
    (h : Segments text start ts) (hne : ∀ t ∈ ts, t.lexeme ≠ .endOfText) :
    scanFrom 0 (text.drop start) (.behind text start start)
      = (scanFrom 0 (text.drop (stopFrom start ts))
        (.behind text (stopFrom start ts) (stopFrom start ts))).map (ts ++ ·) := by
  induction ts generalizing start with
  | nil =>
      show _ = (scanFrom 0 (text.drop start) (.behind text start start)).map ([] ++ ·)
      cases scanFrom 0 (text.drop start) (.behind text start start) <;> rfl
  | cons t ts ih =>
      obtain ⟨ht, hts, -⟩ := Segments.cons_iff.mp h
      obtain ⟨hnt, hnts⟩ := List.forall_mem_cons.mp hne
      rw [scanFrom_sits ht hnt, ih hts hnts]
      show _ = (scanFrom 0 (text.drop (stopFrom t.stop ts))
        (.behind text (stopFrom t.stop ts) (stopFrom t.stop ts))).map (t :: ts ++ ·)
      cases scanFrom 0 (text.drop (stopFrom t.stop ts))
        (.behind text (stopFrom t.stop ts) (stopFrom t.stop ts)) <;> rfl

/-- The tokens of a whole text are what a scan gives. -/
theorem scanFrom_of_segmentation {text : Text} {ts : List PlacedToken}
    (h : Segmentation text ts) : scanFrom 0 text .start = .ok ts := by
  obtain ⟨init, last, rfl, hlast, hposition⟩ := h.ended
  have hsits := h.sits init last [] rfl
  have hinit : Segments text 0 init := h.toSegments.of_append
  have hne : ∀ t ∈ init, t.lexeme ≠ .endOfText := by
    intro t ht
    obtain ⟨before, after, rfl⟩ := List.append_of_mem ht
    have hlt : t.position < last.position :=
      (List.pairwise_append.mp h.increasing).2.2 t ht last (List.mem_singleton_self _)
    exact (hinit.sits before t after rfl).ne_endOfText (hposition ▸ hlt)
  have hrun := scanFrom_segments hinit hne
  have hend : text.drop last.position = [] := List.drop_eq_nil_iff.mpr (Nat.le_of_eq hposition.symm)
  rw [scanFrom_gap hsits.gap, hend, scanFrom, ← hlast, place_behind hsits] at hrun
  exact hrun

/-- A text is not stuck at its end. -/
theorem Stuck.lt_length {text : Text} {position : Nat} (h : Stuck text position) :
    position < text.length := by
  refine Nat.lt_of_not_le fun hle => ?_
  have hend : Lexeme.IsFirst .endOfText (text.drop position) := by
    rw [List.drop_eq_nil_iff.mpr hle]
    exact .endOfText
  exact h.unread _ hend

/-- There is a cause for which a text can be cut no further. -/
theorem Stuck.refused {text : Text} {position : Nat} (h : Stuck text position) :
    ∃ fault, Refused (text.drop position) fault := by
  have hlt := h.lt_length
  rw [List.drop_eq_getElem_cons hlt]
  cases hfirst : Lexeme.first text[position] (text.drop (position + 1)) with
  | ok l =>
      have hl := Lexeme.isFirst_of_first hfirst
      rw [← List.drop_eq_getElem_cons hlt] at hl
      exact absurd hl (h.unread l)
  | error fault => exact ⟨fault, Lexeme.refused_of_first hfirst⟩

/-- Where a text can be cut no further, a scan stops. -/
theorem scanFrom_of_stuck {text : Text} {position : Nat} (h : Stuck text position) {fault : Fault}
    (hfault : Refused (text.drop position) fault) :
    scanFrom 0 text .start = .error ⟨fault, position⟩ := by
  obtain ⟨ts, hts, hgap⟩ := h.reached
  have hne : ∀ t ∈ ts, t.lexeme ≠ .endOfText := by
    intro t ht
    obtain ⟨before, after, rfl⟩ := List.append_of_mem ht
    refine (hts.sits before t after rfl).ne_endOfText ?_
    calc t.position ≤ t.stop := Nat.le_add_right _ _
      _ ≤ stopFrom 0 (before ++ t :: after) := hts.stop_le t ht
      _ ≤ position := hgap.ordered
      _ < text.length := h.lt_length
  have hblank := h.unblank
  have hrun := scanFrom_segments hts hne
  rw [scanFrom_gap hgap] at hrun
  rw [List.drop_eq_getElem_cons h.lt_length] at hrun hfault hblank
  rw [scanFrom, if_neg (Bool.eq_false_iff.mp (hblank _ rfl)),
    Lexeme.first_eq_error_iff.mpr hfault] at hrun
  exact hrun

/-! ## Every text -/

/-- The blanks behind a position, as far as they go. -/
theorem exists_gap {text : Text} {start : Nat} (h : start ≤ text.length) :
    ∃ stop, Gap text start stop ∧ ∀ u ∈ (text.drop stop).head?, u.isBlank = false := by
  have hsplit := List.takeWhile_append_dropWhile (p := CodeUnit.isBlank) (l := text.drop start)
  generalize hblanks : (text.drop start).takeWhile CodeUnit.isBlank = blanks at hsplit
  have hlength := congrArg List.length hsplit
  rw [List.length_append, List.length_drop] at hlength
  refine ⟨start + blanks.length, ⟨Nat.le_add_right _ _, by omega, ?_⟩, ?_⟩
  · intro u hu
    have hextract : text.extract start (start + blanks.length) = blanks := by
      show (text.drop start).take (start + blanks.length - start) = blanks
      rw [Nat.add_sub_cancel_left, ← hsplit, List.take_left]
    rw [hextract, ← hblanks] at hu
    exact List.all_eq_true.mp List.all_takeWhile u hu
  · intro u hu
    rw [← List.drop_drop, ← hsplit, List.drop_left] at hu
    have hnot := List.head?_dropWhile_not CodeUnit.isBlank (text.drop start)
    rw [Option.mem_def.mp hu] at hnot
    exact hnot

/-- A lexeme behind blanks is a token. -/
theorem exists_sits {text : Text} {start position : Nat} (hgap : Gap text start position)
    {l : Lexeme} (hl : l.IsFirst (text.drop position)) :
    ∃ t, Sits text start t ∧ t.lexeme = l ∧ t.position = position := by
  classical
  exact ⟨⟨⟨l, decide (BreaksLine text start position)⟩, position⟩, ⟨hgap, hl, decide_eq_true_iff⟩,
    rfl, rfl⟩

/-- From every position on a text can be cut up to its end, or up to a position where nothing that
can be read comes. -/
theorem exists_segments {text : Text} {start : Nat} (h : start ≤ text.length) :
    (∃ init last, Segments text start (init ++ [last]) ∧ last.lexeme = .endOfText
        ∧ last.position = text.length)
      ∨ ∃ ts position, Segments text start ts ∧ Gap text (stopFrom start ts) position
        ∧ (∀ u ∈ (text.drop position).head?, u.isBlank = false)
        ∧ ∀ l : Lexeme, ¬ l.IsFirst (text.drop position) := by
  -- every token that is cut off leaves less of the text
  induction hrest : text.length - start using Nat.strongRecOn generalizing start with
  | ind n ih =>
      obtain ⟨position, hgap, hunblank⟩ := exists_gap h
      by_cases hread : ∃ l : Lexeme, l.IsFirst (text.drop position)
      · obtain ⟨l, hl⟩ := hread
        obtain ⟨t, ht, rfl, rfl⟩ := exists_sits hgap hl
        by_cases hlt : t.position < text.length
        · have hne := ht.ne_endOfText hlt
          have hwidth := ht.position_lt_stop hne
          have hless : text.length - t.stop < n := by
            have hordered := hgap.ordered
            omega
          have hbehind : ∀ {ts}, Segments text t.stop ts → Segments text start (t :: ts) := by
            intro ts hts
            refine Segments.cons_iff.mpr ⟨ht, hts, fun u hu => ?_⟩
            exact Nat.lt_of_lt_of_le hwidth (hts.le_position u hu)
          rcases ih _ hless ht.stop_le_length rfl with ⟨init, last, hts, hlast⟩ | ⟨ts, stop, hts, hstop⟩
          · exact .inl ⟨t :: init, last, hbehind hts, hlast⟩
          · exact .inr ⟨t :: ts, stop, hbehind hts, hstop⟩
        · have hposition : t.position = text.length :=
            Nat.le_antisymm hgap.inside (Nat.not_lt.mp hlt)
          have hsegments : Segments text start ([] ++ [t]) :=
            Segments.cons_iff.mpr ⟨ht, .nil, fun u hu => (nomatch hu)⟩
          rw [hposition, List.drop_length] at hl
          exact .inl ⟨[], t, hsegments, hl.eq_endOfText, hposition⟩
      · exact .inr ⟨[], position, .nil, hgap, hunblank, fun l hl => hread ⟨l, hl⟩⟩

/-- Every text has its tokens, or a position at which it can be cut no further. -/
theorem segmentation_or_stuck (text : Text) :
    (∃ ts, Segmentation text ts) ∨ ∃ position, Stuck text position := by
  rcases exists_segments (Nat.zero_le text.length) with
    ⟨init, last, hts, hlast, hposition⟩ | ⟨ts, position, hts, hgap, hunblank, hunread⟩
  · exact .inl ⟨init ++ [last], hts, init, last, rfl, hlast, hposition⟩
  · exact .inr ⟨position, ⟨ts, hts, hgap⟩, hunblank, hunread⟩

/-- A scan gives the tokens of the text and no others. -/
theorem scanFrom_eq_ok_iff {text : Text} {ts : List PlacedToken} :
    scanFrom 0 text .start = .ok ts ↔ Segmentation text ts := by
  refine ⟨fun h => ?_, scanFrom_of_segmentation⟩
  rcases segmentation_or_stuck text with ⟨ts', hts'⟩ | ⟨position, hstuck⟩
  · rw [scanFrom_of_segmentation hts'] at h
    cases h
    exact hts'
  · obtain ⟨fault, hfault⟩ := hstuck.refused
    rw [scanFrom_of_stuck hstuck hfault] at h
    cases h

/-- A scan fails where the text is stuck, for the cause that no lexeme starts there. -/
theorem scanFrom_eq_error_iff {text : Text} {e : PlacedFault} :
    scanFrom 0 text .start = .error e
      ↔ Stuck text e.position ∧ Refused (text.drop e.position) e.fault := by
  refine ⟨fun h => ?_, fun h => scanFrom_of_stuck h.1 h.2⟩
  rcases segmentation_or_stuck text with ⟨ts, hts⟩ | ⟨position, hstuck⟩
  · rw [scanFrom_of_segmentation hts] at h
    cases h
  · obtain ⟨fault, hfault⟩ := hstuck.refused
    rw [scanFrom_of_stuck hstuck hfault] at h
    cases h
    exact ⟨hstuck, hfault⟩

/-- A text is cut into tokens in one way only. -/
theorem Segmentation.unique {text : Text} {ts other : List PlacedToken} (h : Segmentation text ts)
    (h' : Segmentation text other) : other = ts :=
  Except.ok.inj ((scanFrom_of_segmentation h').symm.trans (scanFrom_of_segmentation h))

/-- A text is stuck at one position only. -/
theorem Stuck.unique {text : Text} {position other : Nat} (h : Stuck text position)
    (h' : Stuck text other) : position = other := by
  obtain ⟨fault, hfault⟩ := h.refused
  obtain ⟨fault', hfault'⟩ := h'.refused
  have hscan := (scanFrom_of_stuck h hfault).symm.trans (scanFrom_of_stuck h' hfault')
  exact congrArg PlacedFault.position (Except.error.inj hscan)

/-- A text has tokens exactly if it can be cut up to its end, and they are the only way to do so. It
is refused at the first position at which it can be cut no further, for what stands there. Half of
`&&` or `||` is no operator. -/
theorem tokenize_iff_segmentation (text : Text) :
    (∀ ts, tokenize text = .ok ts
        ↔ Segmentation text ts ∧ ∀ other, Segmentation text other → other = ts)
      ∧ (∀ e, tokenize text = .error e
        ↔ e.source = text ∧ Stuck text e.position
          ∧ (∀ position, Stuck text position → e.position ≤ position)
          ∧ Refused (text.drop e.position) e.fault)
      ∧ ∀ op : Operator, op.spelling ≠ Text.ofChars ['&'] ∧ op.spelling ≠ Text.ofChars ['|'] := by
  refine ⟨?_, ?_, fun op => by cases op <;> decide⟩
  · intro ts
    rw [tokenize_eq_ok_iff, scanFrom_eq_ok_iff]
    exact ⟨fun h => ⟨h, fun other => h.unique⟩, fun h => h.1⟩
  · intro e
    rw [tokenize_eq_error_iff, scanFrom_eq_error_iff]
    constructor
    · rintro ⟨hsource, hstuck, hfault⟩
      exact ⟨hsource, hstuck, fun position h => Nat.le_of_eq (hstuck.unique h), hfault⟩
    · rintro ⟨hsource, hstuck, -, hfault⟩
      exact ⟨hsource, hstuck, hfault⟩

example : tokenize (Text.ofString "1.x<=(\n)\n!") = .ok
    [⟨⟨.number (Text.ofString "1."), false⟩, 0⟩, ⟨⟨.name (Text.ofString "x"), false⟩, 2⟩,
      ⟨⟨.operator .lessEqual, false⟩, 3⟩, ⟨⟨.mark .openParen, false⟩, 5⟩,
      ⟨⟨.mark .closeParen, false⟩, 7⟩, ⟨⟨.operator .not, true⟩, 9⟩, ⟨⟨.endOfText, false⟩, 10⟩] := by
  rfl

example : tokenize (Text.ofString "a\n& b")
    = .error ⟨.unexpectedCharacter (CodeUnit.ofChar '&'), Text.ofString "a\n& b", 2⟩ := by
  rfl

end Formulary
