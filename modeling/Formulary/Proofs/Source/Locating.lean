import Formulary.Proofs.Source.LineEndings

/-!
# Where a place points

A place is put together from three scans of the text: one counts lines and columns from the start, one
goes back from the offset to a line break and one goes on from it. They take a carriage return
differently: the count passes over it, while the scans stop at it. Where carriage returns stand before
line feeds only, the scans agree on every unit inside a line.

- `Text.ReturnsPaired` is the condition on carriage returns, and `Text.lines` are the lines of a text,
  said without a scan.
- `Place.Lies` is what holds of the place of every position, and `Place.Points` what holds at a unit
  inside a line.
- `Place.exists_line` and `Place.lineBehind_stops` find the line around such a unit.
- `Place.not_lt_of_same_place` says that a line and a column leave no choice, and
  `Place.locate_points` puts all of this together.
-/

namespace Formulary

/-! ## Lines -/

namespace Text

/-- Every carriage return has a line feed right behind it. -/
def ReturnsPaired (t : Text) : Prop :=
  ∀ i : Nat, t[i]? = some (0x0D : CodeUnit) → t[i + 1]? = some (0x0A : CodeUnit)

/-- A line without a carriage return at its end. -/
def withoutReturn (line : Text) : Text :=
  if line.getLast? = some 0x0D then line.dropLast else line

/-- The lines of a text: what its line feeds separate, each without a carriage return at its end. -/
def lines (t : Text) : List Text := (t.splitOn 0x0A).map withoutReturn

/-- What stands right behind a carriage return. -/
theorem ReturnsPaired.behind {before behind : Text} (h : ReturnsPaired (before ++ 0x0D :: behind)) :
    ∃ rest, behind = 0x0A :: rest := by
  have hnext := h before.length (by simp)
  rw [List.getElem?_append_right (Nat.le_succ _), Nat.succ_sub (Nat.le_refl _), Nat.sub_self,
    List.getElem?_cons_succ] at hnext
  cases behind with
  | nil => cases hnext
  | cons u rest => exact ⟨rest, congrArg (· :: rest) (Option.some.inj hnext)⟩

/-- The end of a text whose returns are paired has its returns paired. -/
theorem ReturnsPaired.of_append {before behind : Text} (h : ReturnsPaired (before ++ behind)) :
    ReturnsPaired behind := by
  intro i hi
  have hnext := h (before.length + i)
  rw [List.getElem?_append_right (Nat.le_add_right _ _), Nat.add_assoc,
    List.getElem?_append_right (Nat.le_add_right _ _), Nat.add_sub_cancel_left,
    Nat.add_sub_cancel_left] at hnext
  exact hnext hi

theorem withoutReturn_of_not_mem {line : Text} (h : 0x0D ∉ line) : withoutReturn line = line := by
  rw [withoutReturn, if_neg]
  exact fun hlast => h (List.mem_of_getLast? hlast)

/-- A return at the end of a line is dropped. -/
theorem withoutReturn_concat (line : Text) : withoutReturn (line ++ [0x0D]) = line := by
  rw [withoutReturn, if_pos List.getLast?_concat, List.dropLast_concat]

/-- There is one more line than there are line feeds. -/
theorem length_lines (t : Text) : t.lines.length = t.count 0x0A + 1 := by
  rw [lines, List.length_map]
  induction t with
  | nil => rfl
  | cons u t ih =>
      rw [List.splitOn_cons_eq_if_modifyHead, List.count_cons]
      split
      · rw [List.length_cons, ih]
      · rw [List.length_modifyHead, ih]

/-- A text that ends its last line, as it may stand before a line. -/
def EndsLines (front : Text) : Prop := front = [] ∨ ∃ earlier, front = earlier ++ [0x0A]

/-- Behind a text that ends its last line, the lines are counted on. -/
theorem getElem?_lines_append {front : Text} (h : front.EndsLines) (rest : Text) :
    (lines (front ++ rest))[front.count 0x0A]? = rest.lines[0]? := by
  rcases h with rfl | ⟨earlier, rfl⟩
  · rfl
  · have hlength := length_lines earlier
    rw [List.append_assoc, List.singleton_append, lines, List.splitOn_append_cons_self,
      List.map_append, ← lines, ← lines, List.count_append, List.getElem?_append_right]
    · rw [hlength]
      congr 1
      simp
    · rw [hlength]
      simp

/-- The first line goes up to the first line feed. -/
theorem getElem?_lines_zero {line : Text} (h : 0x0A ∉ line) {rest : Text}
    (hrest : rest = [] ∨ ∃ more, rest = 0x0A :: more) :
    (lines (line ++ rest))[0]? = some (withoutReturn line) := by
  rcases hrest with rfl | ⟨more, rfl⟩
  · rw [List.append_nil, lines, List.splitOn_eq_singleton h]
    rfl
  · rw [lines, List.splitOn_append_cons_self_of_not_mem h]
    rfl

/-- A line that a scan reaches up to the next line break is the first line. -/
theorem getElem?_lines_scanned {line rest : Text} (hline : ∀ v ∈ line, v.isLineBreak = false)
    (hrest : rest = [] ∨ ∃ u more, rest = u :: more ∧ u.isLineBreak = true)
    (hpaired : ReturnsPaired (line ++ rest)) : (lines (line ++ rest))[0]? = some line := by
  have hlineFeed : 0x0A ∉ line := fun hmem => Bool.noConfusion (hline _ hmem)
  have hreturn : 0x0D ∉ line := fun hmem => Bool.noConfusion (hline _ hmem)
  rcases hrest with rfl | ⟨u, more, rfl, hu⟩
  · rw [getElem?_lines_zero hlineFeed (.inl rfl), withoutReturn_of_not_mem hreturn]
  · rcases Bool.or_eq_true_iff.mp hu with hu | hu
    · obtain rfl := eq_of_beq hu
      rw [getElem?_lines_zero hlineFeed (.inr ⟨more, rfl⟩), withoutReturn_of_not_mem hreturn]
    · -- the carriage return belongs to the line break behind it
      obtain rfl := eq_of_beq hu
      obtain ⟨more, rfl⟩ := hpaired.behind
      have hlineFeed' : 0x0A ∉ line ++ [0x0D] := by simp [hlineFeed]
      have hassoc : line ++ 0x0D :: 0x0A :: more = (line ++ [0x0D]) ++ 0x0A :: more := by simp
      rw [hassoc, getElem?_lines_zero hlineFeed' (.inr ⟨more, rfl⟩), withoutReturn_concat]

end Text

namespace Place

/-! ## Every position -/

/-- What holds of the place of any position of a text. -/
structure Lies (p : Place) (text : Text) (position : Int) : Prop where
  /-- The offset is the position, moved into the text. -/
  offset_eq : (p.offset : Int) = max 0 (min position ((text.length : Int) - 1))
  /-- It lies in the text, and is zero where the text is empty. -/
  offset_lt : text ≠ [] → p.offset < text.length
  offset_nil : text = [] → p.offset = 0
  /-- The line is told by the line feeds before the offset. -/
  line_eq : p.line = 1 + (text.take p.offset).count 0x0A
  /-- The line's text is a piece of the text around the offset. -/
  piece : ∃ before behind, text = before ++ p.lineText ++ behind
    ∧ before.length ≤ p.offset ∧ p.offset ≤ before.length + p.lineText.length
  /-- It holds no line break. -/
  unbroken : 0x0D ∉ p.lineText ∧ 0x0A ∉ p.lineText
  /-- The pointer is a caret behind blanks. -/
  pointer_eq : p.pointer = List.replicate (p.pointer.length - 1) 0x20 ++ [0x5E]
  /-- The caret stands below the line's text, or right behind it. -/
  caret : 1 ≤ p.pointer.length ∧ p.pointer.length ≤ p.lineText.length + 1

/-- A position outside the text is moved to its first or last unit. -/
theorem clampOffset_eq (text : Text) (position : Int) :
    (clampOffset text position : Int) = max 0 (min position ((text.length : Int) - 1)) := by
  rw [clampOffset]
  omega

theorem clampOffset_lt {text : Text} (h : text ≠ []) (position : Int) :
    clampOffset text position < text.length := by
  have hpos := List.length_pos_iff.mpr h
  rw [clampOffset]
  omega

/-- The number of a line counts the line feeds before it. -/
theorem lineAfter_eq (before : Text) : lineAfter before = 1 + before.count 0x0A := by
  rw [lineAfter, Nat.add_comm]
  rfl

/-- The text of a line holds no line break. -/
theorem lineText_unbroken (before behind : Text) {u : CodeUnit}
    (h : u ∈ lineBefore before ++ lineBehind behind) : u.isLineBreak = false := by
  have hscan : ∀ {text : Text}, u ∈ text.takeWhile (fun u => !u.isLineBreak) →
      u.isLineBreak = false := by
    intro text hu
    have hall := List.all_eq_true.mp List.all_takeWhile u hu
    rwa [Bool.not_eq_true'] at hall
  rcases List.mem_append.mp h with hu | hu
  · exact hscan (List.mem_reverse.mp hu)
  · exact hscan hu

/-- The scan back ends somewhere before the offset. -/
theorem exists_lineBefore (before : Text) : ∃ front, before = front ++ lineBefore before := by
  have hsplit : before.reverse.takeWhile (fun u => !u.isLineBreak)
      ++ before.reverse.dropWhile (fun u => !u.isLineBreak) = before.reverse :=
    List.takeWhile_append_dropWhile
  refine ⟨(before.reverse.dropWhile fun u => !u.isLineBreak).reverse, ?_⟩
  rw [lineBefore, ← List.reverse_append, hsplit, List.reverse_reverse]

/-- The scan on ends at the end of the text or at a line break. -/
theorem lineBehind_stops (behind : Text) : ∃ rest, behind = lineBehind behind ++ rest
    ∧ (rest = [] ∨ ∃ u more, rest = u :: more ∧ u.isLineBreak = true) := by
  refine ⟨behind.dropWhile fun u => !u.isLineBreak, List.takeWhile_append_dropWhile.symm, ?_⟩
  cases hrest : behind.dropWhile fun u => !u.isLineBreak with
  | nil => exact .inl rfl
  | cons u more =>
      refine .inr ⟨u, more, rfl, ?_⟩
      have hhead := List.head_dropWhile_not (fun u : CodeUnit => !u.isLineBreak)
        (l := behind) (by rw [hrest]; exact List.cons_ne_nil u more)
      simpa [hrest] using hhead

/-- The pointer stands below the line, or right behind it. -/
theorem pointerColumn_bounds (column : Nat) (lineText : Text) :
    1 ≤ pointerColumn column lineText ∧ pointerColumn column lineText ≤ lineText.length + 1 := by
  rw [pointerColumn]
  split <;> omega

/-- The place of a position is the place of its offset. -/
theorem locate_offset (text : Text) (position : Int) :
    locate text (clampOffset text position) = locate text position := by
  have hclamp : clampOffset text (clampOffset text position) = clampOffset text position := by
    rw [clampOffset, clampOffset]
    omega
  rw [locate, hclamp]
  rfl

theorem clampOffset_nil (position : Int) : clampOffset [] position = 0 := Nat.min_zero _

/-- All positions of the empty text have the same place. -/
theorem locate_nil (position : Int) : locate [] position = ⟨0, 1, 1, [], [0x5E]⟩ := by
  rw [locate, clampOffset_nil]
  rfl

/-- A position in a text has the place of a cut of the text. -/
theorem locate_cut {text : Text} (h : text ≠ []) (position : Int) :
    ∃ before behind, text = before ++ behind ∧ behind ≠ []
      ∧ clampOffset text position = before.length
      ∧ locate text position = locate text before.length := by
  have hlt := clampOffset_lt h position
  refine ⟨text.take (clampOffset text position), text.drop (clampOffset text position),
    (List.take_append_drop _ text).symm, ?_, ?_, ?_⟩
  · intro hnil
    have hlength := List.drop_eq_nil_iff.mp hnil
    omega
  · rw [List.length_take_of_le (Nat.le_of_lt hlt)]
  · rw [List.length_take_of_le (Nat.le_of_lt hlt), locate_offset]

/-- Wherever a position is, its place lies in the text as it should. -/
theorem locate_lies (text : Text) (position : Int) : Lies (locate text position) text position := by
  have hoffset := clampOffset_eq text position
  by_cases hempty : text = []
  · subst hempty
    rw [clampOffset_nil] at hoffset
    rw [locate_nil]
    exact ⟨hoffset, fun h => absurd rfl h, fun _ => rfl, rfl,
      ⟨[], [], rfl, Nat.le_refl 0, Nat.le_refl 0⟩, ⟨List.not_mem_nil, List.not_mem_nil⟩, rfl,
      Nat.le_refl 1, Nat.le_refl 1⟩
  · have hlt := clampOffset_lt hempty position
    obtain ⟨before, behind, rfl, hbehind, hcut, hlocate⟩ := locate_cut hempty position
    obtain ⟨front, hfront⟩ := exists_lineBefore before
    obtain ⟨rest, hrest, -⟩ := lineBehind_stops behind
    have hlength := congrArg List.length hfront
    rw [List.length_append] at hlength
    have hcaret := pointerColumn_bounds (columnAfter before) (lineBefore before ++ lineBehind behind)
    have hbreak : ∀ u ∈ lineBefore before ++ lineBehind behind, u.isLineBreak = false :=
      fun u => lineText_unbroken before behind
    rw [hcut] at hoffset hlt
    rw [hlocate, locate_append before hbehind]
    refine ⟨hoffset, fun _ => hlt, fun h => absurd h hempty, ?_, ⟨front, rest, ?_, ?_, ?_⟩,
      ⟨?_, ?_⟩, ?_, ?_⟩
    · rw [List.take_left, lineAfter_eq]
    · rw [← List.append_assoc, ← hfront, List.append_assoc, ← hrest]
    · show front.length ≤ before.length
      rw [hlength]
      exact Nat.le_add_right _ _
    · show before.length ≤ front.length + (lineBefore before ++ lineBehind behind).length
      rw [hlength, List.length_append]
      omega
    · exact fun hmem => Bool.noConfusion (hbreak _ hmem)
    · exact fun hmem => Bool.noConfusion (hbreak _ hmem)
    · rw [length_pointerAt hcaret.1]
      rfl
    · rwa [length_pointerAt hcaret.1]

/-! ## Units inside a line -/

/-- What holds of the place of a unit inside a line. -/
structure Points (p : Place) (text : Text) : Prop where
  /-- The caret stands at the column. -/
  caret : p.pointer.length = p.column
  /-- In the line's text, the unit at the column is the one at the offset. -/
  unit : p.lineText[p.column - 1]? = text[p.offset]?
  /-- The line's text is the line of its number. -/
  line : text.lines[p.line - 1]? = some p.lineText

/-- Before a unit inside a line stands the beginning of the line, which holds no line break, and
before that a text that ends its last line. -/
theorem exists_line {before rest : Text} {u : CodeUnit} (hu : u.isLineBreak = false)
    (hpaired : Text.ReturnsPaired (before ++ u :: rest)) :
    ∃ front line, before = front ++ line ∧ front.EndsLines
      ∧ ∀ v ∈ line, v.isLineBreak = false := by
  obtain ⟨front, line, rfl, hfront, hline⟩ :
      ∃ front line, before = front ++ line ∧ front.EndsLines ∧ 0x0A ∉ line := by
    rcases Text.split_last before with hnone | ⟨earlier, line, rfl, hline⟩
    · exact ⟨[], before, rfl, .inl rfl, hnone⟩
    · exact ⟨earlier ++ [0x0A], line, by simp, .inr ⟨earlier, rfl⟩, hline⟩
  refine ⟨front, line, rfl, hfront, ?_⟩
  -- a carriage return in the line would have a line feed behind it, still in the line or at `u`
  have hreturn : 0x0D ∉ line := by
    intro hmem
    obtain ⟨start, more, rfl⟩ := List.append_of_mem hmem
    rw [List.append_assoc, List.append_assoc, List.cons_append, ← List.append_assoc] at hpaired
    obtain ⟨behind, hbehind⟩ := hpaired.behind
    cases more with
    | nil =>
        rw [(List.cons.inj hbehind).1] at hu
        cases hu
    | cons v more =>
        obtain ⟨rfl, -⟩ := List.cons.inj hbehind
        exact hline (by simp)
  intro v hv
  rw [CodeUnit.isLineBreak, Bool.or_eq_false_iff]
  exact ⟨beq_eq_false_iff_ne.mpr fun h => hline (h ▸ hv),
    beq_eq_false_iff_ne.mpr fun h => hreturn (h ▸ hv)⟩

/-- A scan back over a line stops at the text before it. -/
theorem takeWhile_reverse_line {front line : Text} (hfront : front.EndsLines)
    {p : CodeUnit → Bool} (hstop : p 0x0A = false) (hline : ∀ v ∈ line, p v = true) :
    (front ++ line).reverse.takeWhile p = line.reverse := by
  rw [List.reverse_append, List.takeWhile_append_of_pos fun v hv => hline v (List.mem_reverse.mp hv)]
  rcases hfront with rfl | ⟨earlier, rfl⟩
  · exact List.append_nil _
  · rw [List.reverse_append, List.reverse_singleton, List.singleton_append,
      List.takeWhile_cons_of_neg (by rw [hstop]; exact Bool.false_ne_true), List.append_nil]

/-- The column counts the units of the line up to the offset. -/
theorem columnAfter_eq {front line : Text} (hfront : front.EndsLines)
    (hline : ∀ v ∈ line, v.isLineBreak = false) : columnAfter (front ++ line) = line.length + 1 := by
  have hboth : ∀ v ∈ line, v.isLineFeed = false ∧ v.isCarriageReturn = false :=
    fun v hv => Bool.or_eq_false_iff.mp (hline v hv)
  rw [columnAfter, takeWhile_reverse_line hfront rfl fun v hv => by rw [(hboth v hv).1]; rfl,
    List.countP_reverse, List.countP_eq_length.mpr fun v hv => by rw [(hboth v hv).2]; rfl]

/-- Behind some whole lines, the units up to the position are all on its line. -/
theorem lineBefore_eq {front line : Text} (hfront : front.EndsLines)
    (hline : ∀ v ∈ line, v.isLineBreak = false) : lineBefore (front ++ line) = line := by
  rw [lineBefore, takeWhile_reverse_line hfront rfl fun v hv => by rw [hline v hv]; rfl,
    List.reverse_reverse]

/-- Around a unit inside a line, the scans agree. -/
theorem locate_cut_points {before rest : Text} {u : CodeUnit} (hu : u.isLineBreak = false)
    (hpaired : Text.ReturnsPaired (before ++ u :: rest)) :
    Points (locate (before ++ u :: rest) before.length) (before ++ u :: rest) := by
  obtain ⟨front, line, rfl, hfront, hline⟩ := exists_line hu hpaired
  have hbehind : lineBehind (u :: rest) = u :: lineBehind rest := by
    rw [lineBehind, List.takeWhile_cons_of_pos (by rw [hu]; rfl)]
    rfl
  rw [locate_append _ (List.cons_ne_nil u rest), columnAfter_eq hfront hline,
    lineBefore_eq hfront hline, hbehind]
  have hcolumn : pointerColumn (line.length + 1) (line ++ u :: lineBehind rest) = line.length + 1 := by
    rw [pointerColumn, if_neg (by simp), List.length_append]
    omega
  refine ⟨?_, ?_, ?_⟩
  · rw [hcolumn, length_pointerAt (Nat.le_add_left 1 _)]
  · simp
  · obtain ⟨tail, htail, hstops⟩ := lineBehind_stops rest
    have hwhole : ∀ v ∈ line ++ u :: lineBehind rest, v.isLineBreak = false := by
      have hscanned := fun v => lineText_unbroken (front ++ line) (u :: rest) (u := v)
      rwa [lineBefore_eq hfront hline, hbehind] at hscanned
    have hcount : lineAfter (front ++ line) - 1 = front.count 0x0A := by
      have hnone : line.count 0x0A = 0 :=
        List.count_eq_zero.mpr fun hmem => Bool.noConfusion (hline _ hmem)
      rw [lineAfter_eq, List.count_append, hnone, Nat.add_sub_cancel_left, Nat.add_zero]
    have hassoc : line ++ u :: rest = (line ++ u :: lineBehind rest) ++ tail := by
      rw [List.append_assoc, List.cons_append, ← htail]
    rw [List.append_assoc] at hpaired
    rw [hcount, List.append_assoc, Text.getElem?_lines_append hfront, hassoc]
    exact Text.getElem?_lines_scanned hwhole hstops (hassoc ▸ hpaired.of_append)

/-! ## One place for one unit -/

/-- Units without a line feed among them advance the column by all that are no carriage return. -/
theorem columnAfter_append {part : Text} (h : 0x0A ∉ part) (before : Text) :
    columnAfter (before ++ part)
      = columnAfter before + part.countP (fun u => !u.isCarriageReturn) := by
  have hpart : ∀ u ∈ part.reverse, (!u.isLineFeed) = true := by
    intro u hu
    have hne : u ≠ 0x0A := fun heq => h (heq ▸ List.mem_reverse.mp hu)
    rw [CodeUnit.isLineFeed, beq_eq_false_iff_ne.mpr hne]
    rfl
  rw [columnAfter, columnAfter, List.reverse_append, List.takeWhile_append_of_pos hpart,
    List.countP_append, List.countP_reverse]
  omega

/-- Behind a unit inside a line, the same line and column are not reached again. -/
theorem columnAfter_ne {u : CodeUnit} (hu : u.isLineBreak = false) (before part : Text)
    (hline : lineAfter (before ++ u :: part) = lineAfter before) :
    columnAfter (before ++ u :: part) ≠ columnAfter before := by
  have hnone : 0x0A ∉ u :: part := by
    rw [lineAfter_eq, lineAfter_eq, List.count_append] at hline
    exact List.count_eq_zero.mp (by omega)
  have hpos : 0 < (u :: part).countP (fun u => !u.isCarriageReturn) := by
    refine List.countP_pos_iff.mpr ⟨u, List.mem_cons_self, ?_⟩
    rw [(Bool.or_eq_false_iff.mp hu).2]
    rfl
  rw [columnAfter_append hnone]
  omega

/-- Of two offsets with the same line and column, the first is at a line break unless they are
equal. -/
theorem not_lt_of_same_place {text : Text} {i j : Nat} {u : CodeUnit} (hi : text[i]? = some u)
    (hu : u.isLineBreak = false)
    (hline : lineAfter (text.take j) = lineAfter (text.take i))
    (hcolumn : columnAfter (text.take j) = columnAfter (text.take i)) : ¬ i < j := by
  intro hlt
  obtain ⟨k, rfl⟩ : ∃ k, j = i + (k + 1) := ⟨j - i - 1, by omega⟩
  obtain ⟨hbound, hunit⟩ := List.getElem?_eq_some_iff.mp hi
  have hpart : text.take (i + (k + 1)) = text.take i ++ u :: (text.drop (i + 1)).take k := by
    rw [List.take_add, List.drop_eq_getElem_cons hbound, hunit, List.take_succ_cons]
  rw [hpart] at hline hcolumn
  exact columnAfter_ne hu _ _ hline hcolumn

/-- The place of every position lies in the text and shows a piece of it. Where carriage returns stand
before line feeds only, the place of a unit inside a line points at that unit, and no other unit inside
a line has the same line and column. -/
theorem locate_points (text : Text) (position : Int) :
    Lies (locate text position) text position
      ∧ (text.ReturnsPaired → ∀ u, text[(locate text position).offset]? = some u →
        u.isLineBreak = false →
          Points (locate text position) text
          ∧ ∀ position' v, text[(locate text position').offset]? = some v → v.isLineBreak = false →
            (locate text position').line = (locate text position).line →
            (locate text position').column = (locate text position).column →
            (locate text position').offset = (locate text position).offset) := by
  refine ⟨locate_lies text position, ?_⟩
  intro hpaired u hunit hu
  constructor
  · have hempty : text ≠ [] := by
      rintro rfl
      cases hunit
    obtain ⟨before, behind, rfl, hbehind, hcut, hlocate⟩ := locate_cut hempty position
    have hoffset : (locate (before ++ behind) position).offset = before.length := hcut
    rw [hoffset] at hunit
    rw [hlocate]
    cases behind with
    | nil => exact absurd rfl hbehind
    | cons v rest =>
        obtain rfl : v = u := by simpa using hunit
        exact locate_cut_points hu hpaired
  · intro position' v hunit' hv hline hcolumn
    have hle := not_lt_of_same_place hunit hu hline hcolumn
    have hge := not_lt_of_same_place hunit' hv hline.symm hcolumn.symm
    exact Nat.le_antisymm (Nat.not_lt.mp hle) (Nat.not_lt.mp hge)

/-- The last unit of a text whose lines end in a carriage return and a line feed: the position behind
the text is moved onto it. -/
theorem locate_points_second_line :
    ∃ text, text = Text.ofString "ab\r\nc?" ∧ text.ReturnsPaired
      ∧ locate text 9 = ⟨5, 2, 2, Text.ofString "c?", Text.ofString " ^"⟩
      ∧ Lies (locate text 9) text 9 ∧ Points (locate text 9) text
      ∧ text.lines = [Text.ofString "ab", Text.ofString "c?"] := by
  have hpaired : Text.ReturnsPaired (Text.ofString "ab\r\nc?") := by
    have hall : ∀ i < 6, (Text.ofString "ab\r\nc?")[i]? = some (0x0D : CodeUnit) →
        (Text.ofString "ab\r\nc?")[i + 1]? = some (0x0A : CodeUnit) := by decide
    intro i hi
    exact hall i (List.getElem?_eq_some_iff.mp hi).1 hi
  have hpoints := locate_points (Text.ofString "ab\r\nc?") 9
  exact ⟨_, rfl, hpaired, by decide, hpoints.1, (hpoints.2 hpaired 0x3F (by decide) (by decide)).1,
    by decide⟩

end Place

end Formulary
