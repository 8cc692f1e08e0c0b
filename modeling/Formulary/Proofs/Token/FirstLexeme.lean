import Formulary.Proofs.Text.Classes
import Formulary.Proofs.Token.Scanning

/-!
# The lexeme that a text starts with

What a text starts with can be said without scanning it: a run of units of one class that cannot be
made longer, an operator that is not the first half of a longer one, or a mark. Texts that start with
none of these are refused for one of two causes.

- `LeadingRun` is a run that cannot be made longer, and `Lexeme.IsFirst` says which lexeme a text
  starts with; `Refused` is the cause where there is none.
- `Lexeme.first_eq_ok_iff` and `Lexeme.first_eq_error_iff` say that scanning finds this lexeme and
  this cause.
-/

namespace Formulary

/-- A run of units of a class at the start of a text that cannot be made longer. -/
structure LeadingRun (p : CodeUnit → Bool) (run text : Text) : Prop where
  nonempty : run ≠ []
  inside : ∀ u ∈ run, p u = true
  maximal : ∃ more, text = run ++ more ∧ ∀ u ∈ more.head?, p u = false

/-- The lexeme that a text starts with. A number is a longest run of digits and points with a digit
and at most one point, a name a longest run of its units behind one that starts a name. An operator
of two units comes before every other. Only the empty text starts with its end. -/
inductive Lexeme.IsFirst : Lexeme → Text → Prop where
  | number {digits text : Text} (run : LeadingRun CodeUnit.isNumeral digits text)
      (digit : ∃ u ∈ digits, u.isDigit = true) (point : digits.count (CodeUnit.ofChar '.') ≤ 1) :
      IsFirst (.number digits) text
  | name {units text : Text} (run : LeadingRun CodeUnit.continuesName units text)
      (starts : ∀ u ∈ units.head?, u.startsName = true) : IsFirst (.name units) text
  | operator {op : Operator} {text : Text} (spelled : op.spelling <+: text)
      (longest : ∀ other : Operator, other.spelling.length = 2 → other.spelling <+: text →
        other = op) :
      IsFirst (.operator op) text
  | mark {m : Mark} {text : Text} (spelled : m.spelling <+: text) : IsFirst (.mark m) text
  | endOfText : IsFirst .endOfText []

/-- The cause for which a text starts with no lexeme: a longest run of digits and points without a
digit or with two points, or else its first unit. -/
inductive Refused : Text → Fault → Prop where
  | number {digits text : Text} (run : LeadingRun CodeUnit.isNumeral digits text)
      (malformed : (∀ u ∈ digits, u.isDigit = false) ∨ 2 ≤ digits.count (CodeUnit.ofChar '.')) :
      Refused text (.invalidNumber digits)
  | character {unit : CodeUnit} {rest : Text} (numeral : unit.isNumeral = false)
      (unread : ∀ l : Lexeme, ¬ l.IsFirst (unit :: rest)) :
      Refused (unit :: rest) (.unexpectedCharacter unit)

/-! ## Runs -/

/-- What is taken from a text is a leading run, if its first unit is of the class. -/
theorem takeWhile_leadingRun {p : CodeUnit → Bool} {unit : CodeUnit} (h : p unit = true)
    (rest : Text) : LeadingRun p ((unit :: rest).takeWhile p) (unit :: rest) where
  nonempty := by
    rw [List.takeWhile_cons_of_pos h]
    exact List.cons_ne_nil _ _
  inside := fun u hu => by
    have hall := List.all_takeWhile (p := p) (l := unit :: rest)
    exact List.all_eq_true.mp hall u hu
  maximal := by
    refine ⟨(unit :: rest).dropWhile p, List.takeWhile_append_dropWhile.symm, ?_⟩
    intro u hu
    have hnot := List.head?_dropWhile_not p (unit :: rest)
    rw [Option.mem_def.mp hu] at hnot
    simpa using hnot

/-- A text has one leading run of a class, and it is what is taken. -/
theorem LeadingRun.takeWhile_eq {p : CodeUnit → Bool} {run text : Text}
    (h : LeadingRun p run text) : text.takeWhile p = run := by
  obtain ⟨more, rfl, hmore⟩ := h.maximal
  rw [List.takeWhile_append_of_pos h.inside]
  cases more with
  | nil => rw [List.takeWhile_nil, List.append_nil]
  | cons u more =>
      have hu : ¬ p u = true := by
        rw [hmore u rfl]
        exact Bool.false_ne_true
      rw [List.takeWhile_cons_of_neg hu, List.append_nil]

/-- The run starts where the text starts. -/
theorem LeadingRun.head_mem {p : CodeUnit → Bool} {run rest : Text} {unit : CodeUnit}
    (h : LeadingRun p run (unit :: rest)) : ∃ units, run = unit :: units := by
  obtain ⟨more, htext, -⟩ := h.maximal
  cases hrun : run with
  | nil => exact absurd hrun h.nonempty
  | cons u units =>
      rw [hrun, List.cons_append] at htext
      exact ⟨units, by rw [(List.cons.inj htext).1]⟩

/-- In a run of digits and points, what is no digit is a point. -/
theorem countP_not_isDigit {run : Text} (h : ∀ u ∈ run, u.isNumeral = true) :
    run.countP (fun u => !u.isDigit) = run.count (CodeUnit.ofChar '.') := by
  rw [List.count]
  refine List.countP_congr fun u hu => ?_
  have hnumeral := h u hu
  rw [CodeUnit.isNumeral, Bool.or_eq_true] at hnumeral
  rcases hnumeral with hdigit | hpoint
  · have hne : (u == CodeUnit.ofChar '.') = false := by
      refine Bool.eq_false_iff.mpr fun heq => ?_
      rw [eq_of_beq heq] at hdigit
      exact absurd hdigit (by decide)
    rw [hdigit, hne]
    rfl
  · rw [eq_of_beq hpoint]
    decide

/-- What makes a run of digits and points a number. -/
theorem writesNumber_iff {run : Text} (h : ∀ u ∈ run, u.isNumeral = true) :
    run.writesNumber = true
      ↔ (∃ u ∈ run, u.isDigit = true) ∧ run.count (CodeUnit.ofChar '.') ≤ 1 := by
  rw [Text.writesNumber, Bool.and_eq_true, List.any_eq_true, decide_eq_true_iff,
    countP_not_isDigit h]

/-- A run of digits and points that writes no number has no digit, or two points at least. -/
theorem writesNumber_eq_false_iff {run : Text} (h : ∀ u ∈ run, u.isNumeral = true) :
    run.writesNumber = false
      ↔ (∀ u ∈ run, u.isDigit = false) ∨ 2 ≤ run.count (CodeUnit.ofChar '.') := by
  rw [← Bool.not_eq_true, writesNumber_iff h, Classical.not_and_iff_not_or_not, not_exists,
    Nat.not_le]
  refine or_congr (forall_congr' fun u => ?_) Iff.rfl
  rw [not_and, Bool.not_eq_true]

/-! ## Operators and marks -/

namespace Operator

theorem mem_all (op : Operator) : op ∈ all := by
  cases op <;> decide

/-- No two operators are spelled alike. -/
theorem spelling_injective {op other : Operator} (h : op.spelling = other.spelling) :
    op = other := by
  have hall : ∀ a ∈ all, ∀ b ∈ all, a.spelling = b.spelling → a = b := by decide
  exact hall op (mem_all op) other (mem_all other) h

/-- Operators are spelled with one unit or two. -/
theorem length_spelling (op : Operator) : op.spelling.length = 1 ∨ op.spelling.length = 2 := by
  cases op <;> decide

/-- The first unit of an operator starts no lexeme of another kind. -/
theorem head_spelling (op : Operator) :
    ∃ unit more, op.spelling = unit :: more ∧ unit.isBlank = false ∧ unit.isNumeral = false
      ∧ unit.startsName = false ∧ ∀ m : Mark, m.spelling ≠ [unit] := by
  cases op <;> exact ⟨_, _, rfl, by decide, by decide, by decide, fun m => by cases m <;> decide⟩

/-- Two operators of the same length at the start of a text are one. -/
theorem eq_of_isPrefix {op other : Operator} {text : Text} (h : op.spelling <+: text)
    (h' : other.spelling <+: text) (hlength : op.spelling.length = other.spelling.length) :
    op = other :=
  spelling_injective ((List.prefix_of_prefix_length_le h h' (Nat.le_of_eq hlength)).eq_of_length hlength)

/-- The operators of two units are looked at before those of one. -/
theorem first?_eq (text : Text) :
    first? text
      = ((all.filter (fun op => op.spelling.length == 2)).find? (·.spelling.isPrefixOf text)).or
        ((all.filter (fun op => op.spelling.length == 1)).find? (·.spelling.isPrefixOf text)) := by
  rw [← List.find?_append]
  rfl

/-- The operator that is found stands at the start of the text. -/
theorem isPrefix_of_first? {text : Text} {op : Operator} (h : first? text = some op) :
    op.spelling <+: text := by
  have hprefix := List.find?_some h
  exact List.isPrefixOf_iff_prefix.mp hprefix

/-- No operator of two units is missed for one of a single unit. -/
theorem longest_of_first? {text : Text} {op other : Operator} (h : first? text = some op)
    (hlength : other.spelling.length = 2) (hother : other.spelling <+: text) : other = op := by
  have hop := isPrefix_of_first? h
  rw [first?_eq] at h
  cases hfound : (all.filter (fun op => op.spelling.length == 2)).find?
      (·.spelling.isPrefixOf text) with
  | none =>
      have hmem : other ∈ all.filter (fun op => op.spelling.length == 2) :=
        List.mem_filter.mpr ⟨mem_all other, beq_iff_eq.mpr hlength⟩
      exact absurd (List.isPrefixOf_iff_prefix.mpr hother) (List.find?_eq_none.mp hfound other hmem)
  | some found =>
      rw [hfound] at h
      obtain rfl : found = op := Option.some.inj h
      have hmem := (List.mem_filter.mp (List.mem_of_find?_eq_some hfound)).2
      exact eq_of_isPrefix hother hop (hlength.trans (eq_of_beq hmem).symm)

/-- The operator that is found is the one of two units, if the text starts with one. -/
theorem first?_eq_some_iff {text : Text} {op : Operator} :
    first? text = some op
      ↔ op.spelling <+: text ∧ ∀ other : Operator, other.spelling.length = 2 →
        other.spelling <+: text → other = op := by
  constructor
  · intro h
    exact ⟨isPrefix_of_first? h, fun other => longest_of_first? h⟩
  · rintro ⟨hop, hlongest⟩
    cases hfound : first? text with
    | none =>
        have hnot := List.find?_eq_none.mp hfound op (mem_all op)
        exact absurd (List.isPrefixOf_iff_prefix.mpr hop) hnot
    | some found =>
        have hspelled := isPrefix_of_first? hfound
        rcases length_spelling found with hone | htwo
        · rcases length_spelling op with hone' | htwo
          · rw [eq_of_isPrefix hspelled hop (hone.trans hone'.symm)]
          · rw [longest_of_first? hfound htwo hop]
        · rw [hlongest found htwo hspelled]

end Operator

namespace Mark

theorem mem_all (m : Mark) : m ∈ all := by
  cases m <;> decide

/-- The unit of a mark starts no lexeme of another kind. -/
theorem head_spelling (m : Mark) :
    ∃ unit, m.spelling = [unit] ∧ unit.isBlank = false ∧ unit.isNumeral = false
      ∧ unit.startsName = false := by
  cases m <;> exact ⟨_, rfl, by decide, by decide, by decide⟩

/-- No two marks are spelled alike. -/
theorem spelling_injective {m other : Mark} (h : m.spelling = other.spelling) : m = other := by
  have hall : ∀ a ∈ all, ∀ b ∈ all, a.spelling = b.spelling → a = b := by decide
  exact hall m (mem_all m) other (mem_all other) h

theorem spelling_isPrefix_iff {m : Mark} {unit : CodeUnit} {rest : Text} :
    m.spelling <+: unit :: rest ↔ m.spelling = [unit] := by
  obtain ⟨u, hu, -⟩ := m.head_spelling
  rw [hu, List.cons_prefix_cons, List.singleton_inj]
  exact and_iff_left List.nil_prefix

/-- The mark that is found stands at the start of the text. -/
theorem isPrefix_of_first? {text : Text} {m : Mark} (h : first? text = some m) :
    m.spelling <+: text := by
  have hprefix := List.find?_some h
  exact List.isPrefixOf_iff_prefix.mp hprefix

theorem first?_eq_some_iff {unit : CodeUnit} {rest : Text} {m : Mark} :
    first? (unit :: rest) = some m ↔ m.spelling <+: unit :: rest := by
  constructor
  · exact isPrefix_of_first?
  · intro h
    cases hfound : first? (unit :: rest) with
    | none =>
        have hnot := List.find?_eq_none.mp hfound m (mem_all m)
        exact absurd (List.isPrefixOf_iff_prefix.mpr h) hnot
    | some found =>
        have hfound' := spelling_isPrefix_iff.mp (isPrefix_of_first? hfound)
        rw [spelling_injective (hfound'.trans (spelling_isPrefix_iff.mp h).symm)]

end Mark

/-! ## The first lexeme -/

namespace Lexeme

/-- The lexeme that is taken is the first one of the text. -/
theorem isFirst_of_first {unit : CodeUnit} {rest : Text} {l : Lexeme}
    (h : first unit rest = .ok l) : l.IsFirst (unit :: rest) := by
  rcases first_cases h with ⟨hnumeral, rfl, hwrites⟩ | ⟨-, hstarts, rfl⟩ | ⟨-, -, op, hop, rfl⟩
    | ⟨-, -, -, m, hm, rfl⟩
  · have hrun := takeWhile_leadingRun hnumeral rest
    obtain ⟨hdigit, hpoint⟩ := (writesNumber_iff hrun.inside).mp hwrites
    exact .number hrun hdigit hpoint
  · have hcontinues : unit.continuesName = true := by rw [CodeUnit.continuesName, hstarts, Bool.true_or]
    refine .name (takeWhile_leadingRun hcontinues rest) ?_
    intro u hu
    rw [List.takeWhile_cons_of_pos hcontinues] at hu
    cases hu
    exact hstarts
  · obtain ⟨hspelled, hlongest⟩ := Operator.first?_eq_some_iff.mp hop
    exact .operator hspelled hlongest
  · exact .mark (Mark.first?_eq_some_iff.mp hm)

/-- The first lexeme of a text is taken. -/
theorem first_of_isFirst {unit : CodeUnit} {rest : Text} {l : Lexeme}
    (h : l.IsFirst (unit :: rest)) : first unit rest = .ok l := by
  rw [first]
  dsimp only
  cases h with
  | number run digit point =>
      obtain ⟨units, rfl⟩ := run.head_mem
      have hnumeral : unit.isNumeral = true := run.inside unit List.mem_cons_self
      rw [if_pos hnumeral, run.takeWhile_eq, if_pos ((writesNumber_iff run.inside).mpr ⟨digit, point⟩)]
  | name run starts =>
      obtain ⟨units, rfl⟩ := run.head_mem
      have hstarts : unit.startsName = true := starts unit rfl
      have hnumeral := CodeUnit.isNumeral_eq_false_of_startsName hstarts
      rw [if_neg (Bool.eq_false_iff.mp hnumeral), if_pos hstarts, run.takeWhile_eq]
  | @operator op _ spelled longest =>
      obtain ⟨u, more, hu, -, hnumeral, hstarts, -⟩ := op.head_spelling
      obtain rfl : u = unit := (List.cons_prefix_cons.mp (hu ▸ spelled)).1
      rw [if_neg (Bool.eq_false_iff.mp hnumeral), if_neg (Bool.eq_false_iff.mp hstarts),
        Operator.first?_eq_some_iff.mpr ⟨spelled, longest⟩]
  | @mark m _ spelled =>
      have hm := Mark.spelling_isPrefix_iff.mp spelled
      obtain ⟨u, hu, -, hnumeral, hstarts⟩ := m.head_spelling
      obtain rfl : u = unit := (List.cons.inj (hu.symm.trans hm)).1
      have hop : Operator.first? (u :: rest) = none := by
        refine Option.eq_none_iff_forall_ne_some.mpr fun op hop => ?_
        obtain ⟨v, more, hv, -, -, -, hmark⟩ := op.head_spelling
        have hspelled := Operator.isPrefix_of_first? hop
        rw [hv, List.cons_prefix_cons] at hspelled
        exact hmark m (hm.trans (by rw [hspelled.1]))
      rw [if_neg (Bool.eq_false_iff.mp hnumeral), if_neg (Bool.eq_false_iff.mp hstarts), hop,
        Mark.first?_eq_some_iff.mpr spelled]

/-- Scanning finds the lexeme that the text starts with. -/
theorem first_eq_ok_iff {unit : CodeUnit} {rest : Text} {l : Lexeme} :
    first unit rest = .ok l ↔ l.IsFirst (unit :: rest) :=
  ⟨isFirst_of_first, first_of_isFirst⟩

/-- A text from which no lexeme is taken starts with none, for the cause that is given. -/
theorem refused_of_first {unit : CodeUnit} {rest : Text} {fault : Fault}
    (h : first unit rest = .error fault) : Refused (unit :: rest) fault := by
  have hunread : ∀ l : Lexeme, ¬ l.IsFirst (unit :: rest) := by
    intro l hl
    rw [first_of_isFirst hl] at h
    cases h
  rw [first] at h
  dsimp only at h
  by_cases hnumeral : unit.isNumeral = true
  · rw [if_pos hnumeral] at h
    have hrun := takeWhile_leadingRun hnumeral rest
    split at h
    · cases h
    · rename_i hwrites
      cases h
      exact .number hrun ((writesNumber_eq_false_iff hrun.inside).mp (Bool.eq_false_iff.mpr hwrites))
  · have hnumeral' := Bool.eq_false_iff.mpr hnumeral
    rw [if_neg hnumeral] at h
    split at h
    · cases h
    · split at h
      · cases h
      · split at h
        · cases h
        · cases h
          exact .character hnumeral' hunread

/-- Scanning stops for the cause for which the text starts with no lexeme. -/
theorem first_eq_error_iff {unit : CodeUnit} {rest : Text} {fault : Fault} :
    first unit rest = .error fault ↔ Refused (unit :: rest) fault := by
  refine ⟨refused_of_first, fun h => ?_⟩
  cases h with
  | number run malformed =>
      obtain ⟨units, rfl⟩ := run.head_mem
      have hnumeral : unit.isNumeral = true := run.inside unit List.mem_cons_self
      have hwrites := (writesNumber_eq_false_iff run.inside).mpr malformed
      rw [first]
      dsimp only
      rw [if_pos hnumeral, run.takeWhile_eq, if_neg (Bool.eq_false_iff.mp hwrites)]
  | character numeral unread =>
      cases hfirst : first unit rest with
      | ok l => exact absurd (isFirst_of_first hfirst) (unread l)
      | error fault =>
          cases refused_of_first hfirst with
          | number run malformed =>
              obtain ⟨units, rfl⟩ := run.head_mem
              rw [run.inside unit List.mem_cons_self] at numeral
              cases numeral
          | character => rfl

/-! ## The text of the first lexeme -/

/-- The first lexeme stands at the start of the text as it is written. -/
theorem IsFirst.text_isPrefix {l : Lexeme} {text : Text} (h : l.IsFirst text) :
    l.text <+: text := by
  cases h with
  | number run =>
      obtain ⟨more, rfl, -⟩ := run.maximal
      exact List.prefix_append _ _
  | name run =>
      obtain ⟨more, rfl, -⟩ := run.maximal
      exact List.prefix_append _ _
  | operator spelled => exact spelled
  | mark spelled => exact spelled
  | endOfText => exact List.nil_prefix

/-- Only the end of the text has no units. -/
theorem IsFirst.text_ne_nil {l : Lexeme} {text : Text} (h : l.IsFirst text)
    (hne : l ≠ .endOfText) : l.text ≠ [] := by
  cases h with
  | number run => exact run.nonempty
  | name run => exact run.nonempty
  | @operator op =>
      obtain ⟨u, more, hu, -⟩ := op.head_spelling
      show op.spelling ≠ []
      rw [hu]
      exact List.cons_ne_nil _ _
  | @mark m =>
      obtain ⟨u, hu, -⟩ := m.head_spelling
      show m.spelling ≠ []
      rw [hu]
      exact List.cons_ne_nil _ _
  | endOfText => exact absurd rfl hne

theorem IsFirst.eq_endOfText {l : Lexeme} (h : l.IsFirst []) : l = .endOfText :=
  Classical.byContradiction fun hne => h.text_ne_nil hne (List.prefix_nil.mp h.text_isPrefix)

/-- No lexeme starts with a blank. -/
theorem IsFirst.isBlank_eq_false {l : Lexeme} {unit : CodeUnit} {rest : Text}
    (h : l.IsFirst (unit :: rest)) : unit.isBlank = false := by
  cases h with
  | number run =>
      obtain ⟨units, rfl⟩ := run.head_mem
      exact CodeUnit.isBlank_eq_false_of_isNumeral (run.inside unit List.mem_cons_self)
  | name run starts =>
      obtain ⟨units, rfl⟩ := run.head_mem
      exact CodeUnit.isBlank_eq_false_of_startsName (starts unit rfl)
  | @operator op _ spelled =>
      obtain ⟨u, more, hu, hblank, -⟩ := op.head_spelling
      rw [hu, List.cons_prefix_cons] at spelled
      exact spelled.1 ▸ hblank
  | @mark m _ spelled =>
      obtain ⟨u, hu, hblank, -⟩ := m.head_spelling
      rw [hu, List.cons_prefix_cons] at spelled
      exact spelled.1 ▸ hblank

end Lexeme

end Formulary
