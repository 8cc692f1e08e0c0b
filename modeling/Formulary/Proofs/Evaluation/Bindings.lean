import Formulary.Context

/-!
# Which names bindings bind

A caller hands over names and values in one of two forms, with names perhaps repeated. Neither the
form nor the order in which the values are copied changes which names are bound in the end.

- `Bindings.names` are the names as they are handed over.
- `Context.contains_ofBindings` says that a new context binds exactly these.
-/

namespace Formulary

namespace OrderedMap

variable {α : Type}

theorem contains_insert {m : OrderedMap α} {key other : Text} {value : α} :
    (m.insert key value).contains other ↔ key = other ∨ m.contains other := by
  rw [contains, get?_insert]
  split
  · rename_i h
    exact ⟨fun _ => .inl h, fun _ => rfl⟩
  · rename_i h
    exact ⟨.inr, fun hor => hor.resolve_left h⟩

theorem contains_insertAll {m : OrderedMap α} {pairs : List (Text × α)} {name : Text} :
    (m.insertAll pairs).contains name ↔ m.contains name ∨ name ∈ pairs.map (·.1) := by
  induction pairs generalizing m with
  | nil => simp [insertAll]
  | cons pair rest ih =>
      have hstep : m.insertAll (pair :: rest) = (m.insert pair.1 pair.2).insertAll rest := rfl
      rw [hstep, ih, contains_insert, List.map_cons, List.mem_cons]
      grind

theorem contains_iff_mem_keys {m : OrderedMap α} {name : Text} :
    m.contains name ↔ name ∈ m.entries.map (·.1) := by
  rw [contains, get?]
  induction m.entries with
  | nil => simp [lookup]
  | cons entry rest ih =>
      obtain ⟨key, value⟩ := entry
      by_cases h : key = name
      · simp [lookup, h]
      · simp [lookup, h, ih, Ne.symm h]

/-- A map of some pairs has the keys of the pairs. -/
theorem mem_keys_ofList {pairs : List (Text × α)} {name : Text} :
    name ∈ (ofList pairs).entries.map (·.1) ↔ name ∈ pairs.map (·.1) := by
  rw [← contains_iff_mem_keys, ofList, contains_insertAll]
  exact or_iff_right (fun h => nomatch h)

end OrderedMap

namespace Bindings

/-- The names that a caller hands over. -/
def names : Bindings → List Text
  | .pairs entries => entries.map (·.1)
  | .fields entries => entries.map (·.1)

/-- The entries of a record are rearranged but neither lost nor made up. -/
theorem mem_indicesFirst {entry : Text × Number} {entries : List (Text × Number)} :
    entry ∈ indicesFirst entries ↔ entry ∈ entries := by
  rw [indicesFirst, List.mem_append, List.mem_filter, List.mem_map]
  constructor
  · rintro (⟨⟨i, e⟩, he, rfl⟩ | ⟨h, -⟩)
    · obtain ⟨e', he', hi⟩ := List.mem_filterMap.mp (List.mem_mergeSort.mp he)
      obtain ⟨j, -, hj⟩ := Option.map_eq_some_iff.mp hi
      cases hj
      exact he'
    · exact h
  · intro h
    cases hi : entry.1.arrayIndex? with
    | none => exact .inr ⟨h, rfl⟩
    | some i =>
        refine .inl ⟨(i, entry), List.mem_mergeSort.mpr (List.mem_filterMap.mpr ⟨entry, h, ?_⟩), rfl⟩
        rw [hi]
        rfl

theorem mem_names_entries {bindings : Bindings} {name : Text} :
    name ∈ bindings.entries.map (·.1) ↔ name ∈ bindings.names := by
  cases bindings with
  | pairs list => exact OrderedMap.mem_keys_ofList
  | fields list =>
      have h : name ∈ (indicesFirst (OrderedMap.ofList list).entries).map (·.1)
          ↔ name ∈ (OrderedMap.ofList list).entries.map (·.1) := by
        simp only [List.mem_map, mem_indicesFirst]
      exact h.trans OrderedMap.mem_keys_ofList

end Bindings

/-- A new context binds exactly the names handed over. -/
theorem Context.contains_ofBindings {bindings : Bindings} {name : Text} :
    (Context.ofBindings bindings).contains name ↔ name ∈ bindings.names := by
  rw [Context.ofBindings, Context.assign, OrderedMap.contains_insertAll,
    Bindings.mem_names_entries]
  exact or_iff_right (fun h => nomatch h)

end Formulary
