import Formulary.Formula
import Formulary.Proofs.Grammar.Cursor
import Formulary.Proofs.Token.Segmentation
import Formulary.Proofs.Token.Separation

/-!
# Another layout of a text

The blanks of a text can be changed without changing what it says, as long as tokens that stand
apart stay apart and lines outside of parentheses end where they ended. Then only positions change,
and these show nowhere but in error reports.

- `Regap` says which blanks may stand in the place of others, and `Relaid` does so for a whole text.
- `Lexeme.IsFirst.of_head` says that a lexeme ends where it ended if the unit behind it is the same
  or a blank.
- `scanFrom_relaid` is about tokens, and `Formula.parse_relaid` about trees and refusals.
-/

namespace Formulary

variable {ρ : ProviderId}

/-- The blanks `fresh` may stand in the place of those between two positions of a text: they are not
left out where there were some, and outside of parentheses they end a line exactly if those did. -/
structure Regap (text : Text) (start stop : Nat) (fresh : Text) : Prop where
  blank : fresh.isBlank = true
  apart : text.extract start stop ≠ [] → fresh ≠ []
  breaks : Text.parenDepth (text.take stop) = 0 →
    fresh.any CodeUnit.isLineBreak = (text.extract start stop).any CodeUnit.isLineBreak

/-- `Relaid text start ts other`: the tokens `ts`, which stand in `text` from a position on, are
written in `other` with other blanks before each of them. The end of a text is its last token, so
that the blanks before it are those at the end. -/
inductive Relaid (text : Text) : Nat → List PlacedToken → Text → Prop where
  | nil {start : Nat} : Relaid text start [] []
  | cons {start : Nat} {t : PlacedToken} {ts : List PlacedToken} {fresh more : Text}
      (gap : Regap text start t.position fresh) (others : Relaid text t.stop ts more) :
      Relaid text start (t :: ts) (fresh ++ (t.lexeme.text ++ more))

/-! ## Lexemes -/

theorem CodeUnit.separates_of_isBlank {u : CodeUnit} (h : u.isBlank = true) : u.Separates where
  numeral := by
    refine Bool.eq_false_iff.mpr fun hnumeral => ?_
    rw [isBlank_eq_false_of_isNumeral hnumeral] at h
    cases h
  name := eq_false_of_toNat (by decide +kernel) (isBlank_mem h)
  operator := by
    intro op hu
    have hspelling : op.spelling.all (fun u => !u.isBlank) = true := by cases op <;> decide
    have hblank := List.all_eq_true.mp hspelling u hu
    rw [h] at hblank
    cases hblank

/-- The units behind a lexeme matter only by the first of them, and a blank ends every lexeme. -/
theorem LeadingRun.of_head {p : CodeUnit → Bool} {run old new : Text}
    (h : LeadingRun p run (run ++ old)) (hblank : ∀ u : CodeUnit, u.isBlank = true → p u = false)
    (hhead : ∀ u ∈ new.head?, u.isBlank = true ∨ u ∈ old.head?) :
    LeadingRun p run (run ++ new) where
  nonempty := h.nonempty
  inside := h.inside
  maximal := by
    obtain ⟨more, hmore, hstop⟩ := h.maximal
    obtain rfl : old = more := List.append_cancel_left hmore
    refine ⟨new, rfl, fun u hu => ?_⟩
    rcases hhead u hu with hu | hu
    · exact hblank u hu
    · exact hstop u hu

theorem Operator.eq_of_head {op other : Operator} {old new : Text}
    (hlongest : other.spelling <+: op.spelling ++ old → other = op)
    (hhead : ∀ u ∈ new.head?, u.isBlank = true ∨ u ∈ old.head?)
    (hlength : other.spelling.length = 2) (h : other.spelling <+: op.spelling ++ new) :
    other = op := by
  rcases op.length_spelling with hone | htwo
  · -- the second unit of the longer operator would be the first one behind the shorter
    obtain ⟨a, hop⟩ := List.length_eq_one_iff.mp hone
    obtain ⟨b, units, hother⟩ := List.exists_cons_of_length_eq_add_one hlength
    rw [hother, List.length_cons, Nat.succ_inj] at hlength
    obtain ⟨c, rfl⟩ := List.length_eq_one_iff.mp hlength
    rw [hop] at hlongest
    rw [hop, hother, List.singleton_append, List.cons_prefix_cons] at h
    obtain ⟨rfl, more, rfl⟩ := h
    rcases hhead c rfl with hblank | hold
    · refine absurd ?_ ((CodeUnit.separates_of_isBlank hblank).operator other)
      rw [hother]
      exact List.mem_cons_of_mem _ List.mem_cons_self
    · refine hlongest ?_
      cases old with
      | nil => cases hold
      | cons d old =>
          cases hold
          rw [hother]
          exact ⟨old, rfl⟩
  · exact eq_of_isPrefix h (List.prefix_append _ _) (hlength.trans htwo.symm)

/-- A lexeme ends where it ended if the unit behind it is the same as before, or a blank. -/
theorem Lexeme.IsFirst.of_head {l : Lexeme} {old new : Text} (h : l.IsFirst (l.text ++ old))
    (hne : l ≠ .endOfText) (hhead : ∀ u ∈ new.head?, u.isBlank = true ∨ u ∈ old.head?) :
    l.IsFirst (l.text ++ new) := by
  generalize htext : l.text ++ old = text at h
  cases h with
  | number run digit point =>
      subst htext
      exact .number (run.of_head (fun u hu => (CodeUnit.separates_of_isBlank hu).numeral) hhead)
        digit point
  | name run starts =>
      subst htext
      exact .name (run.of_head (fun u hu => (CodeUnit.separates_of_isBlank hu).name) hhead) starts
  | operator _ longest =>
      subst htext
      exact .operator (List.prefix_append _ _) fun other hlength hother =>
        Operator.eq_of_head (longest other hlength) hhead hlength hother
  | mark => exact .mark (List.prefix_append _ _)
  | endOfText => exact absurd rfl hne

/-! ## Tokens -/

theorem scanFrom_blanks {fresh : Text} (h : fresh.isBlank = true) (more : Text) (s : ScanState) :
    scanFrom 0 (fresh ++ more) s = scanFrom 0 more
      { s with position := s.position + fresh.length,
               sawLineBreak := s.sawLineBreak || fresh.any CodeUnit.isLineBreak } := by
  induction fresh generalizing s with
  | nil => rw [List.any_nil, Bool.or_false]; rfl
  | cons u fresh ih =>
      rw [Text.isBlank, List.all_cons, Bool.and_eq_true] at h
      obtain ⟨hu, hfresh⟩ := h
      rw [List.cons_append, scanFrom, if_pos hu, ih hfresh]
      simp only [ScanState.skipBlank, List.length_cons, List.any_cons, Bool.or_assoc,
        Nat.add_assoc, Nat.add_comm 1]

/-- A token is flagged as it was. -/
theorem Regap.lineBreak {text fresh : Text} {start : Nat} {t : PlacedToken}
    (h : Regap text start t.position fresh) (ht : Sits text start t) :
    (fresh.any CodeUnit.isLineBreak && Text.parenDepth (text.take t.position) == 0)
      = t.lineBreakBefore := by
  rw [Bool.eq_iff_iff, ht.lineBreak, BreaksLine, Bool.and_eq_true, ← List.any_eq_true, beq_iff_eq]
  constructor
  · rintro ⟨hbreak, hdepth⟩
    exact ⟨h.breaks hdepth ▸ hbreak, hdepth⟩
  · rintro ⟨hbreak, hdepth⟩
    exact ⟨h.breaks hdepth ▸ hbreak, hdepth⟩

/-- No token stands behind the end of the text. -/
theorem Segments.eq_nil_of_end {text : Text} {start : Nat} {t : PlacedToken} {ts : List PlacedToken}
    (h : Segments text start (t :: ts)) (hend : t.lexeme = .endOfText) : ts = [] := by
  obtain ⟨ht, hts, hlt⟩ := Segments.cons_iff.mp h
  cases ts with
  | nil => rfl
  | cons u ts =>
      have hinside := (Segments.cons_iff.mp hts).1.gap.inside
      have hless := hlt u List.mem_cons_self
      exact absurd hend (ht.ne_endOfText (Nat.lt_of_lt_of_le hless hinside))

/-- Where no blanks stand, the text goes on with the next token. -/
theorem Gap.eq_of_extract {text : Text} {start stop : Nat} (h : Gap text start stop)
    (hnone : text.extract start stop = []) : start = stop := by
  have hinside := h.inside
  have hordered := h.ordered
  have hlength : ((text.drop start).take (stop - start)).length = 0 := congrArg List.length hnone
  rw [List.length_take, List.length_drop] at hlength
  omega

/-- The first unit behind a token is a blank or the one that stood there before. -/
theorem Relaid.head {text other : Text} {start : Nat} {ts : List PlacedToken}
    (h : Relaid text start ts other) (hts : Segments text start ts) :
    ∀ u ∈ other.head?, u.isBlank = true ∨ u ∈ (text.drop start).head? := by
  intro u hu
  cases h with
  | nil => cases hu
  | @cons _ t ts fresh more gap others =>
      obtain ⟨ht, -, -⟩ := Segments.cons_iff.mp hts
      cases fresh with
      | cons v fresh =>
          cases hu
          exact .inl (List.all_eq_true.mp gap.blank u List.mem_cons_self)
      | nil =>
          have hnone : text.extract start t.position = [] :=
            Classical.byContradiction fun hsome => gap.apart hsome rfl
          rw [ht.gap.eq_of_extract hnone]
          by_cases hend : t.lexeme = .endOfText
          · cases hts.eq_nil_of_end hend
            cases others
            rw [hend] at hu
            cases hu
          · obtain ⟨v, units, hunits⟩ := List.exists_cons_of_ne_nil (ht.lexeme.text_ne_nil hend)
            obtain ⟨rest, hrest⟩ := ht.lexeme.text_isPrefix
            rw [hunits] at hu hrest
            cases hu
            rw [← hrest]
            exact .inr rfl

theorem Sits.parenDepth_position {text : Text} {start : Nat} {t : PlacedToken}
    (h : Sits text start t) :
    Text.parenDepth (text.take t.position) = Text.parenDepth (text.take start) := by
  have hsplit : text.take t.position = text.take start ++ text.extract start t.position := by
    show _ = text.take start ++ (text.drop start).take (t.position - start)
    rw [← List.take_add, Nat.add_sub_cancel' h.gap.ordered]
  rw [hsplit]
  exact Text.parenDepth_append_plain
    (plain_of_class (p := CodeUnit.isBlank) (by decide) (by decide) h.gap.blank) _

theorem Sits.parenDepth_stop {text : Text} {start : Nat} {t : PlacedToken} (h : Sits text start t) :
    Text.parenDepth (text.take t.stop)
      = ScanState.depthAfter (Text.parenDepth (text.take t.position)) t.lexeme := by
  obtain ⟨more, hmore⟩ := h.lexeme.text_isPrefix
  rw [PlacedToken.stop, List.take_add, ← hmore, List.take_left, h.lexeme.parenDepth_append]

/-- A token behind other blanks is the same token, wherever it stands. -/
theorem Regap.toToken_place {text fresh : Text} {start : Nat} {t : PlacedToken}
    (h : Regap text start t.position fresh) (ht : Sits text start t) {s : ScanState}
    (hdepth : s.depth = Text.parenDepth (text.take t.position))
    (hbreak : s.sawLineBreak = fresh.any CodeUnit.isLineBreak) :
    (s.place t.lexeme).toToken = t.toToken := by
  rw [ScanState.place, hdepth, hbreak, h.lineBreak ht]

/-- A text with other blanks has the same tokens, wherever they stand. -/
theorem scanFrom_relaid {text other : Text} {start : Nat} {ts : List PlacedToken}
    (h : Relaid text start ts other) (hts : Segments text start ts)
    (hlast : ∃ init last, ts = init ++ [last] ∧ last.lexeme = .endOfText) (s : ScanState)
    (hdepth : s.depth = Text.parenDepth (text.take start)) (hbreak : s.sawLineBreak = false) :
    ∃ ts', scanFrom 0 other s = .ok ts' ∧ ts'.map (·.toToken) = ts.map (·.toToken) := by
  induction h generalizing s with
  | nil =>
      obtain ⟨init, last, hnil, -⟩ := hlast
      exact absurd hnil.symm (List.append_ne_nil_of_right_ne_nil _ (List.cons_ne_nil _ _))
  | @cons start t ts fresh more gap others ih =>
      obtain ⟨ht, htail, -⟩ := Segments.cons_iff.mp hts
      rw [scanFrom_blanks gap.blank, hbreak, Bool.false_or]
      generalize hs' : ScanState.mk (s.position + fresh.length) s.depth
        (fresh.any CodeUnit.isLineBreak) = s'
      have hdepth' : s'.depth = Text.parenDepth (text.take t.position) := by
        rw [← hs', ht.parenDepth_position]
        exact hdepth
      have htoken : (s'.place t.lexeme).toToken = t.toToken :=
        gap.toToken_place ht hdepth' (by rw [← hs'])
      by_cases hend : t.lexeme = .endOfText
      · cases hts.eq_nil_of_end hend
        cases others
        refine ⟨[s'.place t.lexeme], ?_, ?_⟩
        · rw [hend]
          rfl
        · rw [List.map_singleton, htoken, List.map_singleton]
      · -- the lexeme ends where it did, and the scan goes on behind it
        obtain ⟨rest, hrest⟩ := ht.lexeme.text_isPrefix
        have hfirst : t.lexeme.IsFirst (t.lexeme.text ++ more) := by
          refine (hrest ▸ ht.lexeme).of_head hend ?_
          have hhead := others.head htail
          rwa [PlacedToken.stop, ← List.drop_drop, ← hrest, List.drop_left] at hhead
        have hlast' : ∃ init last, ts = init ++ [last] ∧ last.lexeme = .endOfText := by
          obtain ⟨init, last, hinit, hlast⟩ := hlast
          cases init with
          | nil =>
              cases hinit
              exact absurd hlast hend
          | cons u init =>
              cases hinit
              exact ⟨init, last, rfl, hlast⟩
        obtain ⟨ts', hscan, hmap⟩ := ih htail hlast' (s'.pass t.lexeme)
          (by rw [ht.parenDepth_stop, ← hdepth']; rfl) rfl
        obtain ⟨unit, units, hunits⟩ := List.exists_cons_of_ne_nil (ht.lexeme.text_ne_nil hend)
        have hcons : t.lexeme.text ++ more = unit :: (units ++ more) := by
          rw [hunits, List.cons_append]
        rw [hcons] at hfirst ⊢
        refine ⟨s'.place t.lexeme :: ts', ?_, ?_⟩
        · rw [scanFrom_first s' hfirst.isBlank_eq_false (Lexeme.first_of_isFirst hfirst) hcons.symm,
            hscan]
          rfl
        · rw [List.map_cons, List.map_cons, htoken, hmap]

theorem tokenize_relaid {text other : Text} {tokens : List PlacedToken}
    (h : tokenize text = .ok tokens) (hother : Relaid text 0 tokens other) :
    ∃ tokens', tokenize other = .ok tokens'
      ∧ tokens'.map (·.toToken) = tokens.map (·.toToken) := by
  have hsegments := scanFrom_eq_ok_iff.mp (tokenize_eq_ok_iff.mp h)
  obtain ⟨init, last, htokens, hlast, -⟩ := hsegments.ended
  obtain ⟨tokens', hscan, hmap⟩ := scanFrom_relaid hother hsegments.toSegments
    ⟨init, last, htokens, hlast⟩ .start rfl rfl
  exact ⟨tokens', tokenize_eq_ok_iff.mpr hscan, hmap⟩

/-! ## Trees and refusals -/

open Grammar

namespace Formula

/-- What is refused at some token, or behind all of them, shows where a token stands: the end of the
text is the last of them. -/
theorem positionOf_eq {text : Text} {tokens : List PlacedToken} (h : tokenize text = .ok tokens)
    (index : Nat) :
    ∃ t : PlacedToken, tokens[min index (tokens.length - 1)]? = some t
      ∧ positionOf text tokens index = t.position := by
  obtain ⟨init, last, rfl, -, hposition⟩ :=
    (scanFrom_eq_ok_iff.mp (tokenize_eq_ok_iff.mp h)).ended
  have hlength : (init ++ [last]).length = init.length + 1 := by
    rw [List.length_append, List.length_singleton]
  rw [positionOf, hlength, Nat.add_sub_cancel]
  by_cases hindex : index < init.length + 1
  · rw [Nat.min_eq_left (Nat.le_of_lt_succ hindex)]
    exact ⟨_, List.getElem?_eq_getElem (hlength ▸ hindex), by rw [List.getElem?_eq_getElem]⟩
  · have hnone : (init ++ [last])[index]? = none := List.getElem?_eq_none (by omega)
    rw [Nat.min_eq_right (by omega), hnone]
    exact ⟨last, List.getElem?_concat_length, hposition.symm⟩

/-- A text with other blanks, by which tokens that stand apart stay apart and lines outside of
parentheses end where they ended, has the same tokens. It is accepted with the same tree and the
same inputs, or refused for the same cause at the same token. -/
theorem parse_relaid {text other : Text} {tokens : List PlacedToken}
    (h : tokenize text = .ok tokens) (hother : Relaid text 0 tokens other) :
    ∃ tokens', tokenize other = .ok tokens'
      ∧ tokens'.map (·.toToken) = tokens.map (·.toToken)
      ∧ (∀ f, parse ρ text = .ok f → parse ρ other = .ok ⟨other, f.root, f.requiredInputs⟩)
      ∧ ∀ e, parse ρ text = .error e → ∃ (i : Nat) (t t' : PlacedToken),
        tokens[i]? = some t ∧ tokens'[i]? = some t'
          ∧ e.position = t.position ∧ parse ρ other = .error ⟨e.fault, other, t'.position⟩ := by
  obtain ⟨tokens', h', htokens⟩ := tokenize_relaid h hother
  have hlength : tokens'.length = tokens.length := by
    rw [← List.length_map, htokens, List.length_map]
  refine ⟨tokens', h', htokens, ?_, ?_⟩
  all_goals
    rw [parse, parse, parseWithin, parseWithin, parseAt, parseAt, h, h', ok_bind, ok_bind, htokens]
  · intro f hf
    split at hf
    · cases hf
      rfl
    · cases hf
  · intro e he
    split at he
    · cases he
    · rename_i failure _
      cases he
      obtain ⟨t, ht, hposition⟩ := positionOf_eq h failure.index
      obtain ⟨t', ht', hposition'⟩ := positionOf_eq h' failure.index
      rw [hlength] at ht'
      exact ⟨_, t, t', ht, ht', hposition, by rw [hposition']⟩

/-- A parenthesis that is not closed is missed before the same token, on a line of its own or not. -/
theorem parse_relaid_unclosed :
    ∃ (tokens tokens' : List PlacedToken) (i : Nat) (t t' : PlacedToken),
      tokenize (Text.ofString "\n(a b") = .ok tokens
        ∧ Relaid (Text.ofString "\n(a b") 0 tokens (Text.ofString "\r\t( a\nb\n")
        ∧ tokenize (Text.ofString "\r\t( a\nb\n") = .ok tokens'
        ∧ tokens[i]? = some t ∧ tokens'[i]? = some t' ∧ t.position = 4
        ∧ parse ⟨0⟩ (Text.ofString "\r\t( a\nb\n")
          = .error ⟨.unclosedGroup, Text.ofString "\r\t( a\nb\n", t'.position⟩ := by
  have h : tokenize (Text.ofString "\n(a b") = .ok
      [⟨⟨.mark .openParen, true⟩, 1⟩, ⟨⟨.name (Text.ofString "a"), false⟩, 2⟩,
        ⟨⟨.name (Text.ofString "b"), false⟩, 4⟩, ⟨⟨.endOfText, false⟩, 5⟩] := rfl
  have hopen : Regap (Text.ofString "\n(a b") 0 1 (Text.ofString "\r\t") :=
    ⟨rfl, fun _ => List.cons_ne_nil _ _, fun _ => rfl⟩
  have hfirst : Regap (Text.ofString "\n(a b") 2 2 (Text.ofString " ") :=
    ⟨rfl, fun _ => List.cons_ne_nil _ _, fun _ => rfl⟩
  have hsecond : Regap (Text.ofString "\n(a b") 3 4 (Text.ofString "\n") :=
    ⟨rfl, fun _ => List.cons_ne_nil _ _, fun hdepth => absurd hdepth (by decide)⟩
  have hend : Regap (Text.ofString "\n(a b") 5 5 (Text.ofString "\n") :=
    ⟨rfl, fun _ => List.cons_ne_nil _ _, fun hdepth => absurd hdepth (by decide)⟩
  have hother : Relaid (Text.ofString "\n(a b") 0 _ (Text.ofString "\r\t( a\nb\n") :=
    (Relaid.cons (t := ⟨⟨.mark .openParen, true⟩, 1⟩) hopen
      (.cons (t := ⟨⟨.name (Text.ofString "a"), false⟩, 2⟩) hfirst
        (.cons (t := ⟨⟨.name (Text.ofString "b"), false⟩, 4⟩) hsecond
          (.cons (t := ⟨⟨.endOfText, false⟩, 5⟩) hend .nil))) :)
  obtain ⟨tokens', h', -, -, hrefused⟩ := parse_relaid h hother
  obtain ⟨i, t, t', ht, ht', hposition, hparse⟩ := hrefused _ rfl
  exact ⟨_, tokens', i, t, t', h, hother, h', ht, ht', hposition.symm, hparse⟩

end Formula

end Formulary
