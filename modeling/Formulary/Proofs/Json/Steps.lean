import Formulary.Json.Reader

/-!
# The steps of the reader

The reader of values counts its steps into and along lists and objects. A step that steps over no unit
leads to one that does: from a list to its first item, and from there to the value of the item. So the
units of the text bound the steps, and a reader that is given more of them reads the same.

- `Json.Leaves` bounds the units that remain behind a reading.
- `Json.Settles` says moreover that the reading is the one with a step more, and `Json.Settled` that it
  is so for all readers of values.
- `Json.readValue_of_le` says that the bound of `Json.parse` is never met.
-/

namespace Formulary.Json

variable {α β : Type}

/-! ## Units that remain -/

/-- Behind a reading no more than `n` units remain. -/
def Leaves (n : Nat) (r : Except JsonFault (α × Text)) : Prop :=
  ∀ a rest, r = .ok (a, rest) → rest.length ≤ n

namespace Leaves

variable {n m : Nat} {r : Except JsonFault (α × Text)}

theorem ok {a : α} {rest : Text} (h : rest.length ≤ n) : Leaves n (.ok (a, rest)) := by
  intro _ _ heq
  cases heq
  exact h

theorem error (e : JsonFault) : Leaves n (.error e : Except JsonFault (α × Text)) := by
  intro _ _ heq
  cases heq

theorem mono (h : Leaves n r) (hle : n ≤ m) : Leaves m r :=
  fun a rest heq => Nat.le_trans (h a rest heq) hle

/-- What is read next leaves its own rest, and begins with no more than was left. -/
theorem bind {next : α × Text → Except JsonFault (β × Text)} (h : Leaves n r)
    (hnext : ∀ a rest, rest.length ≤ n → Leaves m (next (a, rest))) : Leaves m (r >>= next) := by
  cases r with
  | error e => exact .error e
  | ok read => exact hnext read.1 read.2 (h read.1 read.2 rfl)

end Leaves

theorem leaves_refuse (n : Nat) (t : Text) : Leaves n (refuse t : Except JsonFault (α × Text)) := by
  cases t <;> exact .error _

theorem length_skipBlanks_le (t : Text) : (skipBlanks t).length ≤ t.length :=
  (List.dropWhile_sublist _).length_le

/-- Behind blanks and one unit more, fewer units remain. -/
theorem length_lt_of_skipBlanks {t rest : Text} {u : CodeUnit} (h : skipBlanks t = u :: rest) :
    rest.length < t.length := by
  have hle := length_skipBlanks_le t
  rwa [h] at hle

/-- Behind a unit that had to come next, fewer units remain. -/
theorem length_lt_of_readUnit {expected : Char} {t rest : Text} (h : readUnit expected t = .ok rest) :
    rest.length < t.length := by
  cases t with
  | nil => cases h
  | cons u units =>
      rw [readUnit] at h
      split at h
      · cases h
        exact Nat.lt_succ_self _
      · cases h

/-! ### Texts and numbers -/

/-- A text leaves no more than it was read from, whichever escapes it has. -/
theorem leaves_readText (t : Text) : Leaves t.length (readText t) := by
  fun_induction readText t with
  | case2 => exact .ok (Nat.le_succ _)
  | case5 | case8 | case10 =>
      rename_i ih
      refine (ih.mono ?_).bind fun _ _ hrest => .ok hrest
      simp only [List.length_cons]
      omega
  | _ => exact .error _

/-- The digits of a number are stepped over. -/
theorem leaves_readDigits (t : Text) : Leaves t.length (readDigits t) := by
  rw [readDigits]
  split
  · exact leaves_refuse _ _
  · exact .ok (List.dropWhile_sublist _).length_le

theorem leaves_readWhole (t : Text) : Leaves t.length (readWhole t) := by
  cases t with
  | nil => exact .error _
  | cons u rest =>
      rw [readWhole]
      split
      · exact .ok (Nat.le_succ _)
      · exact leaves_readDigits _

theorem leaves_readFraction (t : Text) : Leaves t.length (readFraction t) := by
  cases t with
  | nil => exact .ok (Nat.le_refl _)
  | cons u rest =>
      rw [readFraction]
      split
      · exact (leaves_readDigits rest).mono (Nat.le_succ _)
      · exact .ok (Nat.le_refl _)

/-- The sign of an exponent is stepped over, or there is none. -/
theorem length_readExponentSign_le (t : Text) : (readExponentSign t).2.length ≤ t.length := by
  cases t with
  | nil => exact Nat.le_refl _
  | cons u rest =>
      rw [readExponentSign]
      split
      · exact Nat.le_succ _
      · split
        · exact Nat.le_succ _
        · exact Nat.le_refl _

theorem leaves_readExponent (t : Text) : Leaves t.length (readExponent t) := by
  cases t with
  | nil => exact .ok (Nat.le_refl _)
  | cons u rest =>
      rw [readExponent]
      split
      · have hsign : (readExponentSign rest).2.length ≤ (u :: rest).length :=
          Nat.le_succ_of_le (length_readExponentSign_le rest)
        exact ((leaves_readDigits _).mono hsign).bind fun _ _ hrest => .ok hrest
      · exact .ok (Nat.le_refl _)

/-- A number is its digits, its fraction and its exponent, each read from what the last one left. -/
theorem leaves_readMagnitude (negative : Bool) (t : Text) :
    Leaves t.length (readMagnitude negative t) :=
  (leaves_readWhole t).bind fun _ t₁ h₁ =>
    ((leaves_readFraction t₁).mono h₁).bind fun _ t₂ h₂ =>
      ((leaves_readExponent t₂).mono h₂).bind fun _ _ h₃ => .ok h₃

/-- A number leaves no more than it was read from. -/
theorem leaves_readNumber (t : Text) : Leaves t.length (readNumber t) := by
  cases t with
  | nil => exact .error _
  | cons u rest =>
      rw [readNumber]
      split
      · exact (leaves_readMagnitude true rest).mono (Nat.le_succ _)
      · exact leaves_readMagnitude false _

/-- A word is stepped over as a whole. -/
theorem leaves_readWord (word : Text) (value : Json) (t : Text) :
    Leaves t.length (readWord word value t) := by
  rw [readWord]
  split
  · exact .ok (List.drop_sublist _ _).length_le
  · exact leaves_refuse _ _

/-! ## One step more -/

/-- A reading is the same with a step more, and leaves no more than `n` units. -/
structure Settles (n : Nat) (r more : Except JsonFault (α × Text)) : Prop where
  same : more = r
  leaves : Leaves n r

namespace Settles

variable {n m : Nat} {r more : Except JsonFault (α × Text)}

/-- What takes no steps is the same with one more. -/
theorem of_leaves (h : Leaves n r) : Settles n r r := ⟨rfl, h⟩

theorem mono (h : Settles n r more) (hle : n ≤ m) : Settles m r more :=
  ⟨h.same, h.leaves.mono hle⟩

/-- Two readings that settle one after the other settle together. -/
theorem bind {next next' : α × Text → Except JsonFault (β × Text)} (h : Settles n r more)
    (hnext : ∀ a rest, rest.length ≤ n → Settles m (next (a, rest)) (next' (a, rest))) :
    Settles m (r >>= next) (more >>= next') := by
  obtain ⟨rfl, hleaves⟩ := h
  cases more with
  | error e => exact .of_leaves (.error e)
  | ok read => exact hnext read.1 read.2 (hleaves read.1 read.2 rfl)

/-- Whether there are more steps to take does not change which branch is taken. -/
theorem ite {p : Prop} [Decidable p] {r' more' : Except JsonFault (α × Text)}
    (h : Settles n r more) (h' : Settles n r' more') :
    Settles n (if p then r else r') (if p then more else more') := by
  split
  · exact h
  · exact h'

end Settles

/-- With so many steps every text that they are enough for is read as with a step more. -/
structure Settled (fuel : Nat) : Prop where
  value : ∀ t, 3 * t.length + 1 ≤ fuel → Settles t.length (readValue fuel t) (readValue (fuel + 1) t)
  items : ∀ t, 3 * t.length + 3 ≤ fuel → Settles t.length (readItems fuel t) (readItems (fuel + 1) t)
  itemsFrom : ∀ t, 3 * t.length + 2 ≤ fuel →
    Settles t.length (readItemsFrom fuel t) (readItemsFrom (fuel + 1) t)
  members : ∀ t, 3 * t.length + 3 ≤ fuel →
    Settles t.length (readMembers fuel t) (readMembers (fuel + 1) t)
  membersFrom : ∀ t, 3 * t.length + 2 ≤ fuel →
    Settles t.length (readMembersFrom fuel t) (readMembersFrom (fuel + 1) t)

namespace Settled

variable {fuel : Nat}

/-- A value is a list or an object behind one unit, or takes no step. -/
theorem readValue_succ (h : Settled fuel) {t : Text} (ht : 3 * t.length + 1 ≤ fuel + 1) :
    Settles t.length (readValue (fuel + 1) t) (readValue (fuel + 2) t) := by
  rw [readValue, readValue]
  cases hskip : skipBlanks t with
  | nil => exact .of_leaves (.error _)
  | cons u rest =>
      have hlt := length_lt_of_skipBlanks hskip
      have hle : rest.length ≤ t.length := Nat.le_of_lt hlt
      refine .ite ((h.members rest (by omega)).mono hle) (.ite ((h.items rest (by omega)).mono hle) ?_)
      -- nothing else of a value takes a step
      refine .of_leaves ?_
      split
      · exact ((leaves_readText rest).mono hle).bind fun _ _ hrest => .ok hrest
      · split
        · exact (leaves_readWord _ _ _).mono hlt
        · split
          · exact (leaves_readWord _ _ _).mono hlt
          · split
            · exact (leaves_readWord _ _ _).mono hlt
            · split
              · exact ((leaves_readNumber (u :: rest)).mono hlt).bind fun _ _ hrest => .ok hrest
              · exact .error _

/-- A list is closed at once, or its items begin where it does. -/
theorem readItems_succ (h : Settled fuel) {t : Text} (ht : 3 * t.length + 3 ≤ fuel + 1) :
    Settles t.length (readItems (fuel + 1) t) (readItems (fuel + 2) t) := by
  rw [readItems, readItems]
  cases hskip : skipBlanks t with
  | nil => exact .of_leaves (.error _)
  | cons u rest =>
      have hlt : (u :: rest).length ≤ t.length := length_lt_of_skipBlanks hskip
      refine .ite (.of_leaves (.ok (Nat.le_of_lt hlt))) ?_
      exact ((h.itemsFrom (u :: rest) (by omega)).mono hlt).bind fun _ _ hrest =>
        .of_leaves (.ok hrest)

/-- The first item begins where the items do, and the others behind a comma at least. -/
theorem readItemsFrom_succ (h : Settled fuel) {t : Text} (ht : 3 * t.length + 2 ≤ fuel + 1) :
    Settles t.length (readItemsFrom (fuel + 1) t) (readItemsFrom (fuel + 2) t) := by
  rw [readItemsFrom, readItemsFrom]
  refine (h.value t (by omega)).bind fun item t' ht' => ?_
  dsimp only
  cases hskip : skipBlanks t' with
  | nil => exact .of_leaves (.error _)
  | cons u rest =>
      have hlt : rest.length < t.length := Nat.lt_of_lt_of_le (length_lt_of_skipBlanks hskip) ht'
      have hle : rest.length ≤ t.length := Nat.le_of_lt hlt
      refine .ite ?_ (.ite (.of_leaves (.ok hle)) (.of_leaves (.error _)))
      exact ((h.itemsFrom rest (by omega)).mono hle).bind fun _ _ hrest => .of_leaves (.ok hrest)

/-- An object is closed at once, or its members begin where it does. -/
theorem readMembers_succ (h : Settled fuel) {t : Text} (ht : 3 * t.length + 3 ≤ fuel + 1) :
    Settles t.length (readMembers (fuel + 1) t) (readMembers (fuel + 2) t) := by
  rw [readMembers, readMembers]
  cases hskip : skipBlanks t with
  | nil => exact .of_leaves (.error _)
  | cons u rest =>
      have hlt : (u :: rest).length ≤ t.length := length_lt_of_skipBlanks hskip
      refine .ite (.of_leaves (.ok (Nat.le_of_lt hlt))) ?_
      exact ((h.membersFrom (u :: rest) (by omega)).mono hlt).bind fun _ _ hrest =>
        .of_leaves (.ok hrest)

/-- The value of a member stands behind its name, and the others behind a comma at least. -/
theorem readMembersFrom_succ (h : Settled fuel) {t : Text} (ht : 3 * t.length + 2 ≤ fuel + 1) :
    Settles t.length (readMembersFrom (fuel + 1) t) (readMembersFrom (fuel + 2) t) := by
  rw [readMembersFrom, readMembersFrom]
  cases hquote : readUnit '"' (skipBlanks t) with
  | error e => exact .of_leaves (.error e)
  | ok t₁ =>
      have h₁ : t₁.length ≤ t.length :=
        Nat.le_of_lt (Nat.lt_of_lt_of_le (length_lt_of_readUnit hquote) (length_skipBlanks_le t))
      refine (Settles.of_leaves ((leaves_readText t₁).mono h₁)).bind fun name t₂ h₂ => ?_
      dsimp only
      cases hcolon : readUnit ':' (skipBlanks t₂) with
      | error e => exact .of_leaves (.error e)
      | ok t₃ =>
          have h₃ : t₃.length ≤ t.length := Nat.le_trans
            (Nat.le_of_lt (Nat.lt_of_lt_of_le (length_lt_of_readUnit hcolon)
              (length_skipBlanks_le t₂))) h₂
          refine ((h.value t₃ (by omega)).mono h₃).bind fun value t₄ h₄ => ?_
          dsimp only
          cases hskip : skipBlanks t₄ with
          | nil => exact .of_leaves (.error _)
          | cons u rest =>
              have hlt : rest.length < t.length :=
                Nat.lt_of_lt_of_le (length_lt_of_skipBlanks hskip) h₄
              have hle : rest.length ≤ t.length := Nat.le_of_lt hlt
              refine .ite ?_ (.ite (.of_leaves (.ok hle)) (.of_leaves (.error _)))
              exact ((h.membersFrom rest (by omega)).mono hle).bind fun _ _ hrest =>
                .of_leaves (.ok hrest)

end Settled

/-- However many steps there are, the texts that they are enough for are read as with one more. -/
theorem settled (fuel : Nat) : Settled fuel := by
  induction fuel with
  | zero =>
      refine ⟨?_, ?_, ?_, ?_, ?_⟩ <;>
      · intro t ht
        exact absurd ht (Nat.not_succ_le_zero _)
  | succ fuel ih =>
      exact ⟨fun _ => ih.readValue_succ, fun _ => ih.readItems_succ, fun _ => ih.readItemsFrom_succ,
        fun _ => ih.readMembers_succ, fun _ => ih.readMembersFrom_succ⟩

/-- The bound of `parse` is never met: however many steps more the reader is given, it reads the
same. -/
theorem readValue_of_le {t : Text} {fuel : Nat} (h : 3 * t.length + 3 ≤ fuel) :
    readValue fuel t = readValue (3 * t.length + 3) t := by
  induction h with
  | refl => rfl
  | step hle ih =>
      have henough := Nat.le_trans (Nat.add_le_add_left (by decide : 1 ≤ 3) _) hle
      rw [((settled _).value t henough).same, ih]

end Formulary.Json
