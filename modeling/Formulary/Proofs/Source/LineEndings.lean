import Formulary.Proofs.Token.Separation
import Formulary.Source.Place

/-!
# Places under another line ending

The same text may end its lines by a line feed or by a carriage return and a line feed. A place is
found from what stands before and behind an offset: its line and column from what stands before, its
line's text from both up to the nearest line break. Seen from a unit inside a line, the two endings
look alike. Seen from a line feed they do not: a carriage return before it counts as a line break of
its own, so that the line it ends is not found.

- `Text.withReturns` puts a carriage return before every line feed, and `Text.moved` says where a
  position comes to stand.
- `Place.locate_append` gives the place between two parts of a text.
- `Place.locate_withReturns` compares the places of a unit inside a line, and
  `Place.locate_withReturns_lineFeed` those of a line feed at the end.
-/

namespace Formulary

/-! ## Texts -/

namespace Text

/-- The text with a carriage return before every line feed. -/
def withReturns (t : Text) : Text := t.flatMap (fun u => if u.isLineFeed then [0x0D, u] else [u])

/-- Where a position of a text comes to stand when carriage returns are put in. -/
def moved (t : Text) (position : Nat) : Nat := (withReturns (t.take position)).length

theorem withReturns_append (t more : Text) :
    withReturns (t ++ more) = withReturns t ++ withReturns more := List.flatMap_append

theorem withReturns_cons_of_ne {u : CodeUnit} (hu : u ≠ 0x0A) (t : Text) :
    withReturns (u :: t) = u :: withReturns t := by
  rw [withReturns, List.flatMap_cons, if_neg (by simpa [CodeUnit.isLineFeed] using hu)]
  rfl

/-- A return is put in front of each line feed. -/
theorem withReturns_lineFeed (t : Text) :
    withReturns (0x0A :: t) = 0x0D :: 0x0A :: withReturns t := rfl

/-- A text of one line stays as it is. -/
theorem withReturns_eq_self {t : Text} (h : 0x0A ∉ t) : withReturns t = t := by
  induction t with
  | nil => rfl
  | cons u t ih =>
      obtain ⟨hu, ht⟩ := List.ne_and_not_mem_of_not_mem_cons h
      rw [withReturns_cons_of_ne (Ne.symm hu), ih ht]

/-- A text is one line, or a line with a line feed behind it and a rest. -/
theorem split_first (t : Text) :
    0x0A ∉ t ∨ ∃ line rest, t = line ++ 0x0A :: rest ∧ 0x0A ∉ line := by
  by_cases h : 0x0A ∈ t
  · exact .inr (List.eq_append_cons_of_mem h)
  · exact .inl h

/-- A text is one line, or some lines and a line feed with one line behind it. -/
theorem split_last (t : Text) :
    0x0A ∉ t ∨ ∃ lines line, t = lines ++ 0x0A :: line ∧ 0x0A ∉ line := by
  rcases split_first t.reverse with h | ⟨line, rest, heq, hline⟩
  · exact .inl fun hmem => h (List.mem_reverse.mpr hmem)
  · refine .inr ⟨rest.reverse, line.reverse, ?_, fun hmem => hline (List.mem_reverse.mp hmem)⟩
    rw [← List.reverse_reverse t, heq, List.reverse_append, List.reverse_cons, List.append_assoc,
      List.singleton_append]

/-- A position moves by the returns that are put in before it. -/
theorem moved_length (t more : Text) : moved (t ++ more) t.length = (withReturns t).length := by
  rw [moved, List.take_left]

end Text

/-! ## Places -/

namespace Place

/-- The units before an offset back to the nearest line break. -/
def lineBefore (before : Text) : Text :=
  (before.reverse.takeWhile (fun u => !u.isLineBreak)).reverse

/-- The units from an offset on up to the nearest line break. -/
def lineBehind (behind : Text) : Text := behind.takeWhile (fun u => !u.isLineBreak)

/-- A place is found from what stands before and behind the offset. -/
theorem locate_append (before : Text) {behind : Text} (h : behind ≠ []) :
    locate (before ++ behind) before.length
      = { offset := before.length
          line := lineAfter before
          column := columnAfter before
          lineText := lineBefore before ++ lineBehind behind
          pointer := pointerAt (pointerColumn (columnAfter before)
            (lineBefore before ++ lineBehind behind)) } := by
  have hoffset : clampOffset (before ++ behind) before.length = before.length := by
    have hlength := List.length_pos_iff.mpr h
    rw [clampOffset, Int.toNat_natCast, List.length_append]
    omega
  have htext : lineTextAt (before ++ behind) before.length
      = lineBefore before ++ lineBehind behind := by
    rw [lineTextAt, List.take_left, List.drop_left]
    rfl
  rw [locate, hoffset, List.take_left, htext]

/-- The end of a text has the place of its last unit. -/
theorem locate_length (before : Text) (u : CodeUnit) :
    locate (before ++ [u]) (before ++ [u]).length = locate (before ++ [u]) before.length := by
  have hoffset : ∀ n : Nat, before.length ≤ n → clampOffset (before ++ [u]) n = before.length := by
    intro n hn
    rw [clampOffset, Int.toNat_natCast, List.length_append, List.length_singleton]
    omega
  rw [locate, locate, hoffset _ (Nat.le_refl _), hoffset _ (by simp)]

/-! ### What stands before -/

/-- Line feeds are counted and returns are not. -/
theorem lineAfter_withReturns (before : Text) :
    lineAfter before.withReturns = lineAfter before := by
  rw [lineAfter, lineAfter]
  congr 1
  induction before with
  | nil => rfl
  | cons u before ih =>
      by_cases hu : u = 0x0A
      · rw [hu, Text.withReturns_lineFeed, List.countP_cons_of_neg (by decide),
          List.countP_cons_of_pos rfl, List.countP_cons_of_pos rfl, ih]
      · rw [Text.withReturns_cons_of_ne hu, List.countP_cons, List.countP_cons, ih]

/-- The column counts from the last line feed. -/
theorem columnAfter_lineFeed (lines line : Text) :
    columnAfter (lines ++ 0x0A :: line) = columnAfter line := by
  rw [columnAfter, columnAfter, List.reverse_append, List.reverse_cons, List.append_assoc,
    List.singleton_append, takeWhile_append_of_stop rfl]

/-- No line goes beyond a line feed. -/
theorem lineBefore_lineFeed (lines line : Text) :
    lineBefore (lines ++ 0x0A :: line) = lineBefore line := by
  rw [lineBefore, lineBefore, List.reverse_append, List.reverse_cons, List.append_assoc,
    List.singleton_append, takeWhile_append_of_stop rfl]

/-- A line goes on up to its first break. -/
theorem lineBehind_stop {u : CodeUnit} (hu : u.isLineBreak = true) (line rest : Text) :
    lineBehind (line ++ u :: rest) = lineBehind line :=
  takeWhile_append_of_stop (by rw [hu, Bool.not_true]) line rest

/-- What counts from the last line feed on does not see the carriage returns. -/
theorem eq_withReturns_of_lineFeed {α : Type} {f : Text → α}
    (hf : ∀ lines line : Text, f (lines ++ 0x0A :: line) = f line) (before : Text) :
    f before.withReturns = f before := by
  rcases Text.split_last before with hnone | ⟨lines, line, rfl, hline⟩
  · rw [Text.withReturns_eq_self hnone]
  · have hreturn : Text.withReturns lines ++ 0x0D :: 0x0A :: line
        = (Text.withReturns lines ++ [0x0D]) ++ 0x0A :: line := by
      rw [List.append_assoc, List.singleton_append]
    rw [Text.withReturns_append, Text.withReturns_lineFeed, Text.withReturns_eq_self hline, hreturn,
      hf, hf]

/-- A line ends at the return as it did at the line feed. -/
theorem lineBehind_withReturns (behind : Text) :
    lineBehind behind.withReturns = lineBehind behind := by
  rcases Text.split_first behind with hnone | ⟨line, rest, rfl, hline⟩
  · rw [Text.withReturns_eq_self hnone]
  · rw [Text.withReturns_append, Text.withReturns_lineFeed, Text.withReturns_eq_self hline,
      lineBehind_stop rfl, lineBehind_stop rfl]

/-! ### Both endings -/

/-- A unit inside a line has the same place under both line endings, but for the offset. -/
theorem locate_withReturns {u : CodeUnit} (hu : u ≠ 0x0A) (before rest : Text) :
    locate (before ++ u :: rest).withReturns before.withReturns.length
      = { locate (before ++ u :: rest) before.length
          with offset := before.withReturns.length } := by
  have hbehind : lineBehind (Text.withReturns (u :: rest)) = lineBehind (u :: rest) :=
    lineBehind_withReturns (u :: rest)
  rw [Text.withReturns_append, locate_append _ (List.cons_ne_nil u rest), locate_append, hbehind,
    lineAfter_withReturns, eq_withReturns_of_lineFeed columnAfter_lineFeed,
    eq_withReturns_of_lineFeed lineBefore_lineFeed]
  rw [Text.withReturns_cons_of_ne hu]
  exact List.cons_ne_nil _ _

/-- So has the end of a text that does not end in a line feed. -/
theorem locate_withReturns_length {u : CodeUnit} (hu : u ≠ 0x0A) (before : Text) :
    locate (before ++ [u]).withReturns (before ++ [u]).withReturns.length
      = { locate (before ++ [u]) (before ++ [u]).length
          with offset := before.withReturns.length } := by
  have hlast : (before ++ [u]).withReturns = before.withReturns ++ [u] := by
    rw [Text.withReturns_append, Text.withReturns_cons_of_ne hu]
    rfl
  rw [locate_length before u, ← locate_withReturns hu before [], hlast]
  exact locate_length before.withReturns u

theorem pointerColumn_nil (column : Nat) : pointerColumn column [] = 1 := by
  rw [pointerColumn, List.isEmpty_nil, if_pos rfl]
  omega

/-- A return is not counted in a column. -/
theorem columnAfter_return (before : Text) :
    columnAfter (before ++ [0x0D]) = columnAfter before := by
  rw [columnAfter, columnAfter, List.reverse_append]
  rfl

/-- Behind a carriage return, a line feed at the end of a text has the line and the column that it
has without, but its line is empty. -/
theorem locate_withReturns_lineFeed (before : Text) :
    locate (before ++ [0x0A]).withReturns (before ++ [0x0A]).withReturns.length
      = { offset := before.withReturns.length + 1
          line := lineAfter before
          column := columnAfter before
          lineText := []
          pointer := pointerAt 1 } := by
  have hreturn : (before ++ [0x0A]).withReturns = (before.withReturns ++ [0x0D]) ++ [0x0A] := by
    rw [Text.withReturns_append, List.append_assoc]
    rfl
  have hline : lineAfter (before.withReturns ++ [0x0D]) = lineAfter before := by
    rw [← lineAfter_withReturns before, lineAfter, lineAfter, List.countP_append]
    rfl
  have hempty : lineBefore (before.withReturns ++ [0x0D]) ++ lineBehind [0x0A] = [] := by
    rw [lineBefore, List.reverse_append]
    rfl
  rw [hreturn, locate_length, locate_append _ (List.cons_ne_nil _ _), hline, columnAfter_return,
    eq_withReturns_of_lineFeed columnAfter_lineFeed, hempty, pointerColumn_nil, List.length_append]
  rfl

/-! ### Empty lines -/

/-- A unit that is no line break lengthens the line that it stands in. -/
theorem lineBefore_concat {u : CodeUnit} (hu : u.isLineBreak = false) (before : Text) :
    lineBefore (before ++ [u]) = lineBefore before ++ [u] := by
  rw [lineBefore, lineBefore, List.reverse_append, List.reverse_singleton, List.singleton_append,
    List.takeWhile_cons_of_pos (by rw [hu, Bool.not_false]), List.reverse_cons]

/-- No line stands before an offset exactly at the start of a text and behind a line break. -/
theorem lineBefore_eq_nil_iff {before : Text} :
    lineBefore before = [] ↔ ¬ ∃ line u, before = line ++ [u] ∧ u.isLineBreak = false := by
  rcases List.eq_nil_or_concat before with rfl | ⟨line, u, rfl⟩
  · simp [lineBefore]
  · rw [List.concat_eq_append]
    cases hu : u.isLineBreak with
    | true =>
        have hempty : lineBefore (line ++ [u]) = [] := by
          rw [lineBefore, List.reverse_append, List.reverse_singleton, List.singleton_append,
            List.takeWhile_cons_of_neg (by rw [hu]; decide), List.reverse_nil]
        refine iff_of_true hempty ?_
        rintro ⟨line', u', heq, hu'⟩
        obtain ⟨-, heq⟩ := List.append_inj' heq rfl
        rw [← (List.cons.inj heq).1, hu] at hu'
        cases hu'
    | false =>
        rw [lineBefore_concat hu]
        refine iff_of_false ?_ fun h => h ⟨line, u, rfl, hu⟩
        exact List.append_ne_nil_of_right_ne_nil _ (List.cons_ne_nil _ _)

/-- The pointer is as long as its column. -/
theorem length_pointerAt {column : Nat} (h : 1 ≤ column) : (pointerAt column).length = column := by
  rw [pointerAt, List.length_append, List.length_replicate, List.length_singleton]
  omega

/-- Behind a unit that ends no line, the caret is not in the first column. -/
theorem one_lt_pointerColumn {u : CodeUnit} (hu : u.isLineBreak = false) (before : Text) :
    1 < pointerColumn (columnAfter (before ++ [u])) (lineBefore (before ++ [u])) := by
  obtain ⟨hlineFeed, hreturn⟩ := Bool.or_eq_false_iff.mp hu
  have hcolumn : columnAfter (before ++ [u]) = columnAfter before + 1 := by
    rw [columnAfter, columnAfter, List.reverse_append, List.reverse_singleton,
      List.singleton_append, List.takeWhile_cons_of_pos (by rw [hlineFeed]; rfl),
      List.countP_cons_of_pos (by rw [hreturn]; rfl)]
  have hpos : 1 ≤ columnAfter before := Nat.le_add_left 1 _
  have hempty : ¬ (lineBefore before ++ [u]).isEmpty = true := by simp
  rw [hcolumn, lineBefore_concat hu, pointerColumn, if_neg hempty, List.length_append,
    List.length_singleton]
  omega

/-- The caret is in the first column exactly below an empty line. -/
theorem pointerAt_one_iff (before : Text) :
    pointerAt 1 = pointerAt (pointerColumn (columnAfter before) (lineBefore before))
      ↔ lineBefore before = [] := by
  rw [lineBefore_eq_nil_iff]
  constructor
  · rintro h ⟨line, u, rfl, hu⟩
    have hcolumn := one_lt_pointerColumn hu line
    have hlength := congrArg List.length h
    rw [length_pointerAt (Nat.le_refl 1), length_pointerAt (Nat.le_of_lt hcolumn)] at hlength
    omega
  · intro h
    rw [lineBefore_eq_nil_iff.mpr h, pointerColumn_nil]

end Place

end Formulary
