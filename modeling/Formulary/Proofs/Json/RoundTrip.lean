import Formulary.Json.Reader
import Formulary.Json.Writer
import Formulary.Proofs.Text.Utf8

/-!
# Reading written JSON back

What is written of a value, in any layout, is read as that value; only numbers are left out, which the
reader keeps as they were written and the writer rounds. A text between quotes may hold any units at
all, surrogates that stand alone among them.

- `Json.readText_quoteUnits` reads a text back from between its quotes.
- `Json.ReadsBack` says that a text is read as a value wherever it stands, and
  `Json.readsBack_writeAt` says it of what is written.
- `Json.parse_write` reads a whole value back, and `Json.wellFormed_writeAt` says that what is
  written can go through UTF-8.
-/

namespace Formulary

namespace Json

/-! ## Texts -/

theorem hexValue?_hexDigit : ∀ n < 16, hexValue? (hexDigit n) = some n := by decide

/-- Four hexadecimal digits hold a whole unit. -/
theorem hexUnit?_digits (u : CodeUnit) :
    hexUnit? (hexDigit (u.toNat / 4096 % 16)) (hexDigit (u.toNat / 256 % 16))
      (hexDigit (u.toNat / 16 % 16)) (hexDigit (u.toNat % 16)) = some u := by
  have hlt := u.toNat_lt
  have hvalue : ((u.toNat / 4096 % 16 * 16 + u.toNat / 256 % 16) * 16 + u.toNat / 16 % 16) * 16
      + u.toNat % 16 = u.toNat := by omega
  rw [hexUnit?, hexValue?_hexDigit _ (by omega), hexValue?_hexDigit _ (by omega),
    hexValue?_hexDigit _ (by omega), hexValue?_hexDigit _ (by omega)]
  show some (UInt16.ofNat _) = _
  rw [hvalue, UInt16.ofNat_toNat]

section Units

variable {t units rest : Text}

/-- A unit that is written by its digits is read back. -/
theorem readText_hexEscape (u : CodeUnit) (h : readText t = .ok (units, rest)) :
    readText (hexEscape u ++ t) = .ok (u :: units, rest) := by
  show readText (_ :: _ :: _ :: _ :: _ :: _ :: t) = _
  rw [readText, if_neg (by decide), if_pos rfl]
  dsimp only
  rw [if_pos rfl, hexUnit?_digits]
  dsimp only
  rw [h]
  rfl

/-- A unit that is written by a letter behind a backslash is read back. -/
theorem readText_shortEscape {e u : CodeUnit} (he : e ≠ CodeUnit.ofChar 'u')
    (hu : shortEscape? e = some u) (h : readText t = .ok (units, rest)) :
    readText (CodeUnit.ofChar '\\' :: e :: t) = .ok (u :: units, rest) := by
  rw [readText.eq_def]
  dsimp only
  rw [if_neg (by decide), if_pos rfl, if_neg he, hu]
  dsimp only
  rw [h]
  rfl

/-- A unit that needs no escape is read back as it stands. -/
theorem readText_unit {u : CodeUnit} (hquote : u ≠ CodeUnit.ofChar '"')
    (hbackslash : u ≠ CodeUnit.ofChar '\\') (hcontrol : ¬ u.toNat < 0x20)
    (h : readText t = .ok (units, rest)) : readText (u :: t) = .ok (u :: units, rest) := by
  rw [readText.eq_def]
  dsimp only
  rw [if_neg hquote, if_neg hbackslash, if_neg hcontrol, h]
  rfl

/-- The closing quote ends the text. -/
theorem readText_closing (rest : Text) :
    readText (CodeUnit.ofChar '"' :: rest) = .ok ([], rest) := by
  rw [readText.eq_def]
  dsimp only
  rw [if_pos rfl]

/-- A half of a surrogate pair stands for itself. -/
theorem readText_surrogate {u : CodeUnit} (hu : 0xD800 ≤ u.toNat)
    (h : readText t = .ok (units, rest)) : readText (u :: t) = .ok (u :: units, rest) := by
  refine readText_unit ?_ ?_ (by omega) h
  · rintro rfl
    exact absurd hu (by decide)
  · rintro rfl
    exact absurd hu (by decide)

/-- Each unit is read back, in whichever way it is written. -/
theorem readText_quoteUnit (u : CodeUnit) (h : readText t = .ok (units, rest)) :
    readText (quoteUnit u ++ t) = .ok (u :: units, rest) := by
  unfold quoteUnit
  -- the quote, the backslash and the five control characters that have a letter of their own
  iterate 7
    split
    · rename_i hu
      subst hu
      exact readText_shortEscape (by decide) (by decide) h
  split
  · exact readText_hexEscape u h
  · rename_i hquote hbackslash _ _ _ _ _ hcontrol
    exact readText_unit hquote hbackslash hcontrol h

end Units

/-- A text is read back from between its quotes. -/
theorem readText_quoteUnits (t rest : Text) :
    readText (quoteUnits t ++ CodeUnit.ofChar '"' :: rest) = .ok (t, rest) := by
  fun_induction quoteUnits t with
  | case1 => exact readText_closing rest
  | case2 u hu => exact readText_hexEscape u (readText_closing rest)
  | case3 u hu => exact readText_quoteUnit u (readText_closing rest)
  | case4 high low tail hpair ih =>
      obtain ⟨hhigh, hlow⟩ := Bool.and_eq_true_iff.mp hpair
      rw [CodeUnit.isHighSurrogate_iff] at hhigh
      rw [CodeUnit.isLowSurrogate_iff] at hlow
      exact readText_surrogate hhigh.1 (readText_surrogate (by omega) ih)
  | case5 u v tail _ hu ih =>
      rw [List.append_assoc]
      exact readText_hexEscape u ih
  | case6 u v tail _ hu ih =>
      rw [List.append_assoc]
      exact readText_quoteUnit u ih

/-! ## Values -/

/-- A value without numbers in it. -/
inductive NumberFree : Json → Prop where
  | null : NumberFree .null
  | bool (value : Bool) : NumberFree (.bool value)
  | string (value : Text) : NumberFree (.string value)
  | array {items : List Json} (h : ∀ item ∈ items, NumberFree item) : NumberFree (.array items)
  | object {members : List (Text × Json)} (h : ∀ m ∈ members, NumberFree m.2) :
    NumberFree (.object members)

/-- Blanks of the format only. -/
def Blanks (t : Text) : Prop := t.all isBlank = true

theorem blanks_nil : Blanks [] := rfl

/-- A line break of the layout, with its indent, is blank. -/
theorem blanks_newline (layout : Layout) (depth : Nat) : Blanks (layout.newline depth) := by
  cases layout with
  | compact => exact blanks_nil
  | indented width =>
      rw [Blanks, Layout.newline, List.all_cons, List.all_replicate]
      split <;> rfl

/-- Behind blanks the first unit that is none comes next. -/
theorem skipBlanks_append {blanks t : Text} (h : Blanks blanks) :
    skipBlanks (blanks ++ t) = skipBlanks t := by
  induction blanks with
  | nil => rfl
  | cons u blanks ih =>
      rw [Blanks, List.all_cons, Bool.and_eq_true] at h
      rw [skipBlanks, List.cons_append, List.dropWhile_cons_of_pos h.1]
      exact ih h.2

/-- Nothing is skipped in front of a unit that is not blank. -/
theorem skipBlanks_cons {u : CodeUnit} (h : isBlank u = false) (t : Text) :
    skipBlanks (u :: t) = u :: t :=
  List.dropWhile_cons_of_neg (Bool.eq_false_iff.mp h)

/-- A text is read as a value, wherever it stands and whatever follows. Its length bounds the steps
that this takes. -/
def ReadsBack (text : Text) (value : Json) : Prop :=
  ∀ (fuel : Nat) (blanks rest : Text), Blanks blanks → 2 * text.length ≤ fuel →
    readValue fuel (blanks ++ (text ++ rest)) = .ok (value, rest)

/-- Blanks in front of a written value are skipped, so that its first unit may be taken for granted.
-/
theorem ReadsBack.of_cons {u : CodeUnit} {text : Text} {value : Json} (hu : isBlank u = false)
    (h : ∀ fuel rest, 2 * text.length + 1 ≤ fuel →
      readValue (fuel + 1) (u :: (text ++ rest)) = .ok (value, rest)) :
    ReadsBack (u :: text) value := by
  intro fuel blanks rest hblanks hfuel
  rw [List.length_cons] at hfuel
  obtain ⟨fuel, rfl⟩ : ∃ k, fuel = k + 1 := ⟨fuel - 1, by omega⟩
  have hread := h fuel rest (by omega)
  rw [readValue, skipBlanks_cons hu] at hread
  rw [readValue, skipBlanks_append hblanks, List.cons_append, skipBlanks_cons hu]
  exact hread

theorem readsBack_null : ReadsBack (Text.ofString "null") .null :=
  .of_cons (by decide) fun _ _ _ => rfl

theorem readsBack_true : ReadsBack (Text.ofString "true") (.bool true) :=
  .of_cons (by decide) fun _ _ _ => rfl

theorem readsBack_false : ReadsBack (Text.ofString "false") (.bool false) :=
  .of_cons (by decide) fun _ _ _ => rfl

/-- A text in quotes is read back. -/
theorem readsBack_quote (t : Text) : ReadsBack (quote t) (.string t) := by
  show ReadsBack (CodeUnit.ofChar '"' :: (quoteUnits t ++ [CodeUnit.ofChar '"'])) _
  refine .of_cons (by decide) fun fuel rest _ => ?_
  rw [readValue, skipBlanks_cons (by decide)]
  dsimp only
  rw [if_neg (by decide), if_neg (by decide), if_pos rfl, List.append_assoc, List.singleton_append,
    readText_quoteUnits]
  rfl

/-! ### Lists -/

section Lists

variable {layout : Layout} {depth fuel : Nat} {lead tail more rest : Text}

/-- An item before the closing bracket. -/
theorem readItemsFrom_last {text : Text} {item : Json} (h : ReadsBack text item)
    (hlead : Blanks lead) (htail : Blanks tail) (hfuel : 2 * text.length ≤ fuel) :
    readItemsFrom (fuel + 1) (lead ++ (text ++ (tail ++ CodeUnit.ofChar ']' :: rest)))
      = .ok ([item], rest) := by
  rw [readItemsFrom, h fuel lead _ hlead hfuel]
  dsimp only [bind, Except.bind]
  rw [skipBlanks_append htail, skipBlanks_cons (by decide)]
  rfl

/-- An item before a comma. -/
theorem readItemsFrom_next {text : Text} {item : Json} {items : List Json}
    (h : ReadsBack text item) (hlead : Blanks lead) (hfuel : 2 * text.length ≤ fuel)
    (hmore : readItemsFrom fuel more = .ok (items, rest)) :
    readItemsFrom (fuel + 1) (lead ++ (text ++ CodeUnit.ofChar ',' :: more))
      = .ok (item :: items, rest) := by
  rw [readItemsFrom, h fuel lead _ hlead hfuel]
  dsimp only [bind, Except.bind]
  rw [skipBlanks_cons (by decide)]
  dsimp only
  rw [if_pos rfl, hmore]
  rfl

/-- All items of a list that has any. -/
theorem readItemsFrom_join {items : List Json} (hne : items ≠ [])
    (h : ∀ item ∈ items, ReadsBack (writeAt layout depth item) item) (htail : Blanks tail) :
    ∀ fuel lead rest, Blanks lead →
      2 * (Text.join (CodeUnit.ofChar ',' :: layout.newline depth)
        (writeItems layout depth items)).length + 1 ≤ fuel →
      readItemsFrom fuel (lead ++ (Text.join (CodeUnit.ofChar ',' :: layout.newline depth)
        (writeItems layout depth items) ++ (tail ++ CodeUnit.ofChar ']' :: rest)))
        = .ok (items, rest) := by
  induction items with
  | nil => exact absurd rfl hne
  | cons item items ih =>
      intro fuel lead rest hlead hfuel
      obtain ⟨hitem, hitems⟩ := List.forall_mem_cons.mp h
      obtain ⟨fuel, rfl⟩ : ∃ k, fuel = k + 1 := ⟨fuel - 1, by omega⟩
      cases items with
      | nil => exact readItemsFrom_last hitem hlead htail (by simpa [writeItems, Text.join] using hfuel)
      | cons next others =>
          -- behind the comma the line break is what the rest of the items starts with
          have hmore := ih (List.cons_ne_nil _ _) hitems fuel (layout.newline depth) rest
            (blanks_newline layout depth)
          rw [writeItems, writeItems] at hfuel ⊢
          rw [writeItems] at hmore
          rw [Text.join, List.append_assoc, List.append_assoc, List.cons_append]
          rw [Text.join, List.length_append, List.length_append, List.length_cons] at hfuel
          exact readItemsFrom_next hitem hlead (by omega) (hmore (by omega))

/-- A list that has items. -/
theorem readItems_of_cons {u : CodeUnit} {t : Text} {items : List Json} (hlead : Blanks lead)
    (hblank : isBlank u = false) (hu : u ≠ CodeUnit.ofChar ']')
    (h : readItemsFrom fuel (u :: t) = .ok (items, rest)) :
    readItems (fuel + 1) (lead ++ u :: t) = .ok (.array items, rest) := by
  rw [readItems, skipBlanks_append hlead, skipBlanks_cons hblank]
  dsimp only
  rw [if_neg hu, h]
  rfl

end Lists

/-! ### Objects -/

section Objects

variable {layout : Layout} {depth fuel : Nat} {lead tail more rest : Text}

/-- The name of a member opens with a quote. -/
theorem readUnit_quote (name t : Text) (hlead : Blanks lead) :
    readUnit '"' (skipBlanks (lead ++ (quote name ++ t)))
      = .ok (quoteUnits name ++ CodeUnit.ofChar '"' :: t) := by
  have hquote : quote name ++ t
      = CodeUnit.ofChar '"' :: (quoteUnits name ++ CodeUnit.ofChar '"' :: t) := by
    simp [quote]
  rw [hquote, skipBlanks_append hlead, skipBlanks_cons (by decide), readUnit, if_pos rfl]

/-- Behind a name comes a colon, and then blanks at most. -/
theorem readUnit_colon (layout : Layout) : ∃ blanks, Blanks blanks ∧
    ∀ t, readUnit ':' (skipBlanks (layout.colon ++ t)) = .ok (blanks ++ t) := by
  cases layout with
  | compact => exact ⟨[], blanks_nil, fun _ => rfl⟩
  | indented width => exact ⟨[CodeUnit.ofChar ' '], rfl, fun _ => rfl⟩

/-- A member before the closing brace. -/
theorem readMembersFrom_last {name text : Text} {value : Json} (h : ReadsBack text value)
    (hlead : Blanks lead) (htail : Blanks tail) (hfuel : 2 * text.length ≤ fuel) :
    readMembersFrom (fuel + 1) (lead ++ (quote name ++ (layout.colon ++ (text
      ++ (tail ++ CodeUnit.ofChar '\x7d' :: rest))))) = .ok ([(name, value)], rest) := by
  obtain ⟨blanks, hblanks, hcolon⟩ := readUnit_colon layout
  rw [readMembersFrom, readUnit_quote name _ hlead]
  dsimp only [bind, Except.bind]
  rw [readText_quoteUnits]
  dsimp only
  rw [hcolon]
  dsimp only
  rw [h fuel blanks _ hblanks hfuel]
  dsimp only
  rw [skipBlanks_append htail, skipBlanks_cons (by decide)]
  rfl

/-- A member before a comma. -/
theorem readMembersFrom_next {name text : Text} {value : Json} {members : List (Text × Json)}
    (h : ReadsBack text value) (hlead : Blanks lead) (hfuel : 2 * text.length ≤ fuel)
    (hmore : readMembersFrom fuel more = .ok (members, rest)) :
    readMembersFrom (fuel + 1) (lead ++ (quote name ++ (layout.colon ++ (text
      ++ CodeUnit.ofChar ',' :: more)))) = .ok ((name, value) :: members, rest) := by
  obtain ⟨blanks, hblanks, hcolon⟩ := readUnit_colon layout
  rw [readMembersFrom, readUnit_quote name _ hlead]
  dsimp only [bind, Except.bind]
  rw [readText_quoteUnits]
  dsimp only
  rw [hcolon]
  dsimp only
  rw [h fuel blanks _ hblanks hfuel]
  dsimp only
  rw [skipBlanks_cons (by decide)]
  dsimp only
  rw [if_pos rfl, hmore]
  rfl

/-- All members of an object that has any. -/
theorem readMembersFrom_join {members : List (Text × Json)} (hne : members ≠ [])
    (h : ∀ m ∈ members, ReadsBack (writeAt layout depth m.2) m.2) (htail : Blanks tail) :
    ∀ fuel lead rest, Blanks lead →
      2 * (Text.join (CodeUnit.ofChar ',' :: layout.newline depth)
        (writeMembers layout depth members)).length + 1 ≤ fuel →
      readMembersFrom fuel (lead ++ (Text.join (CodeUnit.ofChar ',' :: layout.newline depth)
        (writeMembers layout depth members) ++ (tail ++ CodeUnit.ofChar '\x7d' :: rest)))
        = .ok (members, rest) := by
  induction members with
  | nil => exact absurd rfl hne
  | cons m members ih =>
      intro fuel lead rest hlead hfuel
      obtain ⟨name, value⟩ := m
      obtain ⟨hvalue, hmembers⟩ := List.forall_mem_cons.mp h
      change ReadsBack (writeAt layout depth value) value at hvalue
      obtain ⟨fuel, rfl⟩ : ∃ k, fuel = k + 1 := ⟨fuel - 1, by omega⟩
      cases members with
      | nil =>
          rw [writeMembers, writeMembers, Text.join] at hfuel ⊢
          rw [List.length_append, List.length_append] at hfuel
          rw [List.append_assoc, List.append_assoc]
          exact readMembersFrom_last hvalue hlead htail (by omega)
      | cons next others =>
          have hmore := ih (List.cons_ne_nil _ _) hmembers fuel (layout.newline depth) rest
            (blanks_newline layout depth)
          rw [writeMembers, writeMembers] at hfuel ⊢
          rw [writeMembers] at hmore
          rw [Text.join, List.length_append, List.length_append, List.length_append,
            List.length_append, List.length_cons] at hfuel
          rw [Text.join, List.append_assoc, List.append_assoc, List.append_assoc, List.append_assoc,
            List.cons_append]
          exact readMembersFrom_next hvalue hlead (by omega) (hmore (by omega))

/-- An object that has members. -/
theorem readMembers_of_cons {u : CodeUnit} {t : Text} {members : List (Text × Json)}
    (hlead : Blanks lead) (hblank : isBlank u = false) (hu : u ≠ CodeUnit.ofChar '\x7d')
    (h : readMembersFrom fuel (u :: t) = .ok (members, rest)) :
    readMembers (fuel + 1) (lead ++ u :: t) = .ok (.object members, rest) := by
  rw [readMembers, skipBlanks_append hlead, skipBlanks_cons hblank]
  dsimp only
  rw [if_neg hu, h]
  rfl

end Objects

/-! ### All values -/

/-- A written value starts with a unit that neither is a blank nor closes a list. -/
theorem NumberFree.writeAt_cons {value : Json} (h : NumberFree value) (layout : Layout)
    (depth : Nat) : ∃ u text, writeAt layout depth value = u :: text ∧ isBlank u = false
      ∧ u ≠ CodeUnit.ofChar ']' := by
  cases h with
  | null => exact ⟨_, _, rfl, by decide, by decide⟩
  | bool value => cases value <;> exact ⟨_, _, rfl, by decide, by decide⟩
  | string value => exact ⟨_, _, rfl, by decide, by decide⟩
  | array h =>
      rw [writeAt, enclose]
      split <;> exact ⟨_, _, rfl, by decide, by decide⟩
  | object h =>
      rw [writeAt, enclose]
      split <;> exact ⟨_, _, rfl, by decide, by decide⟩

/-- The first of some joined parts comes first. -/
theorem join_cons_cons (separator : Text) (u : CodeUnit) (text : Text) (parts : List Text) :
    ∃ t, Text.join separator ((u :: text) :: parts) = u :: t := by
  cases parts with
  | nil => exact ⟨text, rfl⟩
  | cons next rest => exact ⟨_, rfl⟩

/-- Parts between brackets are read back if the reader behind the opening bracket reads them. -/
theorem readsBack_enclose {layout : Layout} {depth : Nat} {opening closing : Char}
    {parts : List Text} {value : Json} {reader : Nat → Text → Except JsonFault (Json × Text)}
    (hopening : isBlank (CodeUnit.ofChar opening) = false) (hparts : parts ≠ [])
    (hvalue : ∀ fuel t, readValue (fuel + 1) (CodeUnit.ofChar opening :: t) = reader fuel t)
    (h : ∀ fuel lead rest, Blanks lead →
      2 * (Text.join (CodeUnit.ofChar ',' :: layout.newline (depth + 1)) parts).length + 1 ≤ fuel →
      reader (fuel + 1) (lead ++ (Text.join (CodeUnit.ofChar ',' :: layout.newline (depth + 1)) parts
        ++ (layout.newline depth ++ CodeUnit.ofChar closing :: rest))) = .ok (value, rest)) :
    ReadsBack (enclose layout depth opening closing parts) value := by
  rw [enclose, if_neg (by rwa [List.isEmpty_iff])]
  dsimp only
  rw [List.cons_append, List.cons_append, List.cons_append]
  refine .of_cons hopening fun fuel rest hfuel => ?_
  simp only [List.length_append, List.length_cons] at hfuel
  obtain ⟨fuel, rfl⟩ : ∃ k, fuel = k + 1 := ⟨fuel - 1, by omega⟩
  have hread := h fuel (layout.newline (depth + 1)) rest (blanks_newline layout _) (by omega)
  rw [hvalue]
  simpa only [List.append_assoc, List.singleton_append] using hread

/-- A list is read back if its items are; no item opens with the closing bracket. -/
theorem readsBack_array {layout : Layout} {depth : Nat} {items : List Json}
    (hfree : ∀ item ∈ items, NumberFree item)
    (h : ∀ item ∈ items, ReadsBack (writeAt layout (depth + 1) item) item) :
    ReadsBack (writeAt layout depth (.array items)) (.array items) := by
  rw [writeAt]
  cases items with
  | nil =>
      refine .of_cons (by decide) fun fuel rest hfuel => ?_
      obtain ⟨fuel, rfl⟩ : ∃ k, fuel = k + 1 := ⟨fuel - 1, by omega⟩
      rfl
  | cons item items =>
      have hne : item :: items ≠ [] := List.cons_ne_nil item items
      refine readsBack_enclose (by decide) (List.cons_ne_nil _ _) (fun _ _ => rfl) ?_
      intro fuel lead rest hlead hfuel
      have hread := readItemsFrom_join hne h (blanks_newline layout depth) fuel [] rest blanks_nil hfuel
      -- the first item is what tells the list from the empty one
      obtain ⟨u, text, hfirst, hblank, hu⟩ :=
        (hfree item List.mem_cons_self).writeAt_cons layout (depth + 1)
      obtain ⟨t, ht⟩ := join_cons_cons (CodeUnit.ofChar ',' :: layout.newline (depth + 1)) u text
        (writeItems layout (depth + 1) items)
      rw [writeItems, hfirst, ht] at hread ⊢
      exact readItems_of_cons hlead hblank hu hread

/-- An object is read back if the values of its members are. -/
theorem readsBack_object {layout : Layout} {depth : Nat} {members : List (Text × Json)}
    (h : ∀ m ∈ members, ReadsBack (writeAt layout (depth + 1) m.2) m.2) :
    ReadsBack (writeAt layout depth (.object members)) (.object members) := by
  rw [writeAt]
  cases members with
  | nil =>
      refine .of_cons (by decide) fun fuel rest hfuel => ?_
      obtain ⟨fuel, rfl⟩ : ∃ k, fuel = k + 1 := ⟨fuel - 1, by omega⟩
      rfl
  | cons m members =>
      have hne : m :: members ≠ [] := List.cons_ne_nil m members
      refine readsBack_enclose (by decide) (List.cons_ne_nil _ _) (fun _ _ => rfl) ?_
      intro fuel lead rest hlead hfuel
      have hread := readMembersFrom_join hne h (blanks_newline layout depth) fuel [] rest blanks_nil
        hfuel
      obtain ⟨t, ht⟩ := join_cons_cons (CodeUnit.ofChar ',' :: layout.newline (depth + 1))
        (CodeUnit.ofChar '"') (quoteUnits m.1 ++ [CodeUnit.ofChar '"'] ++ layout.colon
          ++ writeAt layout (depth + 1) m.2) (writeMembers layout (depth + 1) members)
      rw [writeMembers] at hread ⊢
      change Text.join _ ((quote m.1 ++ _ ++ _) :: _) = _ at ht
      rw [ht] at hread ⊢
      exact readMembers_of_cons hlead (by decide) (by decide) hread

/-- What is written of a value without numbers is read as that value. -/
theorem readsBack_writeAt {value : Json} (h : NumberFree value) (layout : Layout) (depth : Nat) :
    ReadsBack (writeAt layout depth value) value := by
  induction h generalizing depth with
  | null => exact readsBack_null
  | bool value =>
      cases value with
      | true => exact readsBack_true
      | false => exact readsBack_false
  | string value => exact readsBack_quote value
  | array h ih => exact readsBack_array h fun item hitem => ih item hitem (depth + 1)
  | object h ih => exact readsBack_object fun m hm => ih m hm (depth + 1)

/-- A written value is read back. -/
theorem parse_write {value : Json} (h : NumberFree value) (layout : Layout) :
    parse (write layout value) = .ok value := by
  have hread := readsBack_writeAt h layout 0 (3 * (writeAt layout 0 value).length + 3) [] []
    blanks_nil (by omega)
  rw [List.nil_append, List.append_nil] at hread
  rw [parse, write, hread]
  rfl

/-! ## Written texts as UTF-8 -/

/-- An escape is written in digits, of which none is a surrogate. -/
theorem wellFormed_hexEscape (u : CodeUnit) : (hexEscape u).WellFormed := by
  have hdigit : ∀ n, (hexDigit (n % 16)).isSurrogate = false := by
    intro n
    have hlt : ∀ k < 16, (hexDigit k).isSurrogate = false := by decide
    exact hlt (n % 16) (Nat.mod_lt n (by decide))
  exact .unit (by decide) (.unit (by decide) (.unit (hdigit _) (.unit (hdigit _) (.unit (hdigit _)
    (.unit (hdigit _) .nil)))))

/-- A unit that is no surrogate is written without one. -/
theorem wellFormed_quoteUnit {u : CodeUnit} (hu : u.isSurrogate = false) :
    (quoteUnit u).WellFormed := by
  unfold quoteUnit
  -- the escapes of two characters
  iterate 7
    split
    · exact .of_all (by decide)
  split
  · exact wellFormed_hexEscape u
  · exact .unit hu .nil

/-- Within quotes a surrogate that stands alone is written as an escape. -/
theorem wellFormed_quoteUnits (t : Text) : (quoteUnits t).WellFormed := by
  fun_induction quoteUnits t with
  | case1 => exact .nil
  | case2 u hu => exact wellFormed_hexEscape u
  | case3 u hu => exact wellFormed_quoteUnit (Bool.eq_false_iff.mpr hu)
  | case4 high low tail hpair ih =>
      obtain ⟨hhigh, hlow⟩ := Bool.and_eq_true_iff.mp hpair
      exact .pair hhigh hlow ih
  | case5 u v tail _ hu ih => exact (wellFormed_hexEscape u).append ih
  | case6 u v tail _ hu ih => exact (wellFormed_quoteUnit (Bool.eq_false_iff.mpr hu)).append ih

theorem wellFormed_quote (t : Text) : (quote t).WellFormed :=
  .unit (by decide) ((wellFormed_quoteUnits t).append (.of_all (by decide)))

/-- Line breaks and indents hold no surrogates. -/
theorem wellFormed_newline (layout : Layout) (depth : Nat) : (layout.newline depth).WellFormed := by
  cases layout with
  | compact => exact .nil
  | indented width =>
      refine .unit (by decide) (.of_all ?_)
      rw [List.all_replicate]
      split <;> rfl

/-- Parts that are well formed are so when they are joined. -/
theorem wellFormed_join {separator : Text} {parts : List Text} (hseparator : separator.WellFormed)
    (h : ∀ part ∈ parts, part.WellFormed) : (Text.join separator parts).WellFormed := by
  fun_induction Text.join separator parts with
  | case1 => exact .nil
  | case2 part => exact h part List.mem_cons_self
  | case3 part next rest ih =>
      obtain ⟨hpart, hrest⟩ := List.forall_mem_cons.mp h
      exact (hpart.append hseparator).append (ih hrest)

/-- Brackets around well-formed parts keep them so. -/
theorem wellFormed_enclose {layout : Layout} {depth : Nat} {opening closing : Char}
    {parts : List Text} (hopening : (CodeUnit.ofChar opening).isSurrogate = false)
    (hclosing : (CodeUnit.ofChar closing).isSurrogate = false)
    (h : ∀ part ∈ parts, part.WellFormed) :
    (enclose layout depth opening closing parts).WellFormed := by
  have hend : Text.WellFormed [CodeUnit.ofChar closing] := .unit hclosing .nil
  have hseparator : Text.WellFormed (CodeUnit.ofChar ',' :: layout.newline (depth + 1)) :=
    .unit (by decide) (wellFormed_newline layout _)
  have hjoin := wellFormed_join hseparator h
  rw [enclose]
  split
  · exact .unit hopening hend
  · exact (((Text.WellFormed.unit hopening (wellFormed_newline layout _)).append hjoin).append
      (wellFormed_newline layout _)).append hend

/-- The items of a list are written one by one. -/
theorem writeItems_eq_map (layout : Layout) (depth : Nat) (items : List Json) :
    writeItems layout depth items = items.map (writeAt layout depth) := by
  induction items with
  | nil => rfl
  | cons item items ih => rw [writeItems, ih, List.map_cons]

/-- The members of an object are written one by one, each behind its name. -/
theorem writeMembers_eq_map (layout : Layout) (depth : Nat) (members : List (Text × Json)) :
    writeMembers layout depth members
      = members.map (fun m => quote m.1 ++ layout.colon ++ writeAt layout depth m.2) := by
  induction members with
  | nil => rfl
  | cons m members ih => rw [writeMembers, ih, List.map_cons]

/-- A written value goes through UTF-8. -/
theorem wellFormed_writeAt {value : Json} (h : NumberFree value) (layout : Layout) (depth : Nat) :
    (writeAt layout depth value).WellFormed := by
  induction h generalizing depth with
  | null =>
      rw [writeAt]
      exact .of_all (by decide)
  | bool value =>
      cases value with
      | true =>
          rw [writeAt]
          exact .of_all (by decide)
      | false =>
          rw [writeAt]
          exact .of_all (by decide)
  | string value => exact wellFormed_quote value
  | array _ ih =>
      rw [writeAt, writeItems_eq_map]
      refine wellFormed_enclose (by decide) (by decide) (List.forall_mem_map.mpr ?_)
      intro item hitem
      exact ih item hitem (depth + 1)
  | object _ ih =>
      have hcolon : layout.colon.WellFormed := by
        cases layout <;> rw [Layout.colon] <;> exact .of_all (by decide)
      rw [writeAt, writeMembers_eq_map]
      refine wellFormed_enclose (by decide) (by decide) (List.forall_mem_map.mpr ?_)
      intro m hm
      exact ((wellFormed_quote m.1).append hcolon).append (ih m hm (depth + 1))

end Json

end Formulary
