import Formulary.Proofs.Evaluation.Bindings

/-!
# Maps without repeated keys

A map that is only ever written to lists no key twice, nor does one that keys are dropped from. Such
a map is the map of its own entries, and an entry of it is what its key gives.

- `OrderedMap.Distinct` says that no key is listed twice.
- `OrderedMap.keys_erase` and `OrderedMap.get?_erase` say what is left when a key is dropped.
- `OrderedMap.ofList_entries` makes a map anew out of its entries.
- `OrderedMap.get?_insertAll` reads behind several writes: the last one to the key counts.
- `OrderedMap.keys_insertAll` lists the keys behind several writes.
- `OrderedMap.insertAll_insertAll` says that to write the same pairs again changes nothing.
-/

namespace Formulary

namespace OrderedMap

variable {α : Type}

/-- No key is listed twice. -/
def Distinct (m : OrderedMap α) : Prop := m.keys.Nodup

theorem distinct_empty : (empty : OrderedMap α).Distinct := List.nodup_nil

/-- A write adds its key and no other. -/
theorem mem_keys_insert {m : OrderedMap α} {key other : Text} {value : α} :
    other ∈ (m.insert key value).keys ↔ other ∈ m.keys ∨ key = other := by
  rw [keys_insert]
  by_cases hkey : key ∈ m.keys
  · rw [if_pos hkey]
    refine ⟨.inl, ?_⟩
    rintro (hother | rfl)
    · exact hother
    · exact hkey
  · rw [if_neg hkey, List.mem_append, List.mem_singleton, eq_comm (a := other)]

/-- A write adds no key that is there already. -/
theorem Distinct.insert {m : OrderedMap α} (h : m.Distinct) (key : Text) (value : α) :
    (m.insert key value).Distinct := by
  rw [Distinct, keys_insert]
  by_cases hkey : key ∈ m.keys
  · rw [if_pos hkey]
    exact h
  · rw [if_neg hkey]
    refine List.nodup_append.mpr ⟨h, List.pairwise_singleton _ key, ?_⟩
    intro k hk k' hk' heq
    exact hkey (List.mem_singleton.mp hk' ▸ heq ▸ hk)

theorem Distinct.erase {m : OrderedMap α} (h : m.Distinct) (key : Text) :
    (m.erase key).Distinct := by
  have hsub : (m.erase key).keys.Sublist m.keys := List.filter_sublist.map _
  exact hsub.nodup h

@[simp] theorem insertAll_nil (m : OrderedMap α) : m.insertAll [] = m := rfl

@[simp] theorem insertAll_cons (m : OrderedMap α) (pair : Text × α) (pairs : List (Text × α)) :
    m.insertAll (pair :: pairs) = (m.insert pair.1 pair.2).insertAll pairs := rfl

/-- Nor do writes in turn. -/
theorem Distinct.insertAll {m : OrderedMap α} (h : m.Distinct) (pairs : List (Text × α)) :
    (m.insertAll pairs).Distinct := by
  induction pairs generalizing m with
  | nil => exact h
  | cons pair pairs ih => exact ih (h.insert pair.1 pair.2)

/-! ## Entries and keys -/

/-- What a key gives is among the entries. -/
theorem mem_of_get? {m : OrderedMap α} {key : Text} {value : α} (h : m.get? key = some value) :
    (key, value) ∈ m.entries := by
  obtain ⟨entries⟩ := m
  rw [get?] at h
  induction entries with
  | nil => cases h
  | cons entry rest ih =>
      obtain ⟨k, v⟩ := entry
      rw [lookup] at h
      by_cases hk : k = key
      · rw [if_pos hk] at h
        cases h
        exact hk ▸ List.mem_cons_self
      · rw [if_neg hk] at h
        exact List.mem_cons_of_mem _ (ih h)

/-- Where no key is listed twice, an entry is what its key gives. -/
theorem Distinct.get?_of_mem {m : OrderedMap α} (h : m.Distinct) {key : Text} {value : α}
    (hmem : (key, value) ∈ m.entries) : m.get? key = some value := by
  obtain ⟨entries⟩ := m
  rw [get?]
  rw [Distinct, keys] at h
  induction entries with
  | nil => cases hmem
  | cons entry rest ih =>
      obtain ⟨k, v⟩ := entry
      obtain ⟨hk, hrest⟩ := List.nodup_cons.mp h
      rw [lookup]
      rcases List.mem_cons.mp hmem with heq | hmem
      · cases heq
        rw [if_pos rfl]
      · have hlisted : key ∈ rest.map (·.1) := List.mem_map_of_mem hmem
        have hne : k ≠ key := fun heq => hk (heq ▸ hlisted)
        rw [if_neg hne]
        exact ih hrest hmem

/-- Writing what is there already changes nothing. -/
theorem insert_of_get? {m : OrderedMap α} {key : Text} {value : α} (h : m.get? key = some value) :
    m.insert key value = m := by
  have hput : ∀ entries : List (Text × α), lookup entries key = some value →
      put entries key value = entries := by
    intro entries
    induction entries with
    | nil => intro hnone; cases hnone
    | cons entry rest ih =>
        obtain ⟨k, v⟩ := entry
        intro hsome
        rw [lookup] at hsome
        rw [put]
        by_cases hk : k = key
        · rw [if_pos hk] at hsome ⊢
          cases hsome
          rfl
        · rw [if_neg hk] at hsome ⊢
          rw [ih hsome]
  rw [insert, hput m.entries h]

/-! ## Dropping a key -/

/-- Dropping a key leaves the others in their order. -/
theorem keys_erase (m : OrderedMap α) (key : Text) :
    (m.erase key).keys = m.keys.filter (fun other => other ≠ key) := by
  rw [keys, keys, erase, List.filter_map]
  rfl

/-- A key that is dropped gives nothing, and the other keys stay as they are. -/
theorem get?_erase (m : OrderedMap α) (key other : Text) :
    (m.erase key).get? other = if key = other then none else m.get? other := by
  obtain ⟨entries⟩ := m
  rw [erase, get?, get?]
  induction entries with
  | nil => exact (ite_self _).symm
  | cons entry rest ih =>
      obtain ⟨k, v⟩ := entry
      by_cases hk : k = key
      · rw [List.filter_cons_of_neg (by simpa using hk), ih, lookup, hk]
        by_cases ho : key = other
        · rw [if_pos ho, if_pos ho]
        · rw [if_neg ho, if_neg ho, if_neg ho]
      · rw [List.filter_cons_of_pos (by simpa using hk), lookup, lookup, ih]
        by_cases ho : k = other
        · rw [if_pos ho, if_pos ho, if_neg (fun heq => hk (ho.trans heq.symm))]
        · rw [if_neg ho, if_neg ho]

/-! ## Several writes -/

/-- A new key comes last. -/
theorem put_of_not_mem {entries : List (Text × α)} {key : Text} (h : key ∉ entries.map (·.1))
    (value : α) : put entries key value = entries ++ [(key, value)] := by
  induction entries with
  | nil => rfl
  | cons entry rest ih =>
      obtain ⟨k, v⟩ := entry
      obtain ⟨hk, hrest⟩ := List.ne_and_not_mem_of_not_mem_cons h
      rw [put, if_neg (Ne.symm hk), ih hrest]
      rfl

/-- New keys are written behind the old ones, as they come. -/
theorem insertAll_of_disjoint {m : OrderedMap α} {pairs : List (Text × α)}
    (h : (m.keys ++ pairs.map (·.1)).Nodup) : m.insertAll pairs = ⟨m.entries ++ pairs⟩ := by
  induction pairs generalizing m with
  | nil => rw [insertAll_nil, List.append_nil]
  | cons pair rest ih =>
      have hnew : pair.1 ∉ m.keys := fun hmem =>
        (List.nodup_append.mp h).2.2 _ hmem _ List.mem_cons_self rfl
      have hinsert : m.insert pair.1 pair.2 = ⟨m.entries ++ [pair]⟩ := by
        rw [insert, put_of_not_mem hnew]
      rw [insertAll_cons, hinsert, ih]
      · rw [List.append_assoc]
        rfl
      · rw [keys, List.map_append, List.append_assoc]
        exact h

/-- A map without repeated keys is the map of its entries. -/
theorem ofList_entries {m : OrderedMap α} (h : m.Distinct) : ofList m.entries = m := by
  rw [ofList, insertAll_of_disjoint]
  · rfl
  · exact h

/-- Among pairs with a key there is a last one. -/
theorem isSome_find?_reverse {pairs : List (Text × α)} {key : Text} (h : key ∈ pairs.map (·.1)) :
    (pairs.reverse.find? (fun pair => pair.1 = key)).isSome := by
  obtain ⟨pair, hpair, hname⟩ := List.mem_map.mp h
  exact List.find?_isSome.mpr ⟨pair, List.mem_reverse.mpr hpair, decide_eq_true hname⟩

/-- Behind several writes, the last one to a key counts. -/
theorem get?_insertAll (m : OrderedMap α) (pairs : List (Text × α)) (key : Text) :
    (m.insertAll pairs).get? key
      = ((pairs.reverse.find? (fun pair => pair.1 = key)).map (·.2)).or (m.get? key) := by
  induction pairs generalizing m with
  | nil => rfl
  | cons pair rest ih =>
      rw [insertAll_cons, ih, get?_insert, List.reverse_cons, List.find?_append]
      cases rest.reverse.find? (fun pair => pair.1 = key) with
      | some found => rfl
      | none =>
          by_cases hkey : pair.1 = key
          · simp [hkey]
          · simp [hkey]

/-- Behind several writes the keys are the old ones and then the new ones, in the order in which they
first came. -/
theorem keys_insertAll (m : OrderedMap α) (pairs : List (Text × α)) :
    (m.insertAll pairs).keys
      = m.keys ++ ((pairs.map (·.1)).filter (fun key => !m.keys.contains key)).eraseDups := by
  induction pairs generalizing m with
  | nil => exact (List.append_nil _).symm
  | cons pair rest ih =>
      rw [insertAll_cons, ih, keys_insert, List.map_cons]
      by_cases hkey : pair.1 ∈ m.keys
      · rw [if_pos hkey, List.filter_cons_of_neg (by simpa using hkey)]
      · have hnew : (fun key => !(m.keys ++ [pair.1]).contains key)
            = fun key => !key == pair.1 && !m.keys.contains key := by
          funext key
          rw [Bool.eq_iff_iff]
          simp [And.comm]
        rw [if_neg hkey, List.filter_cons_of_pos (by simpa using hkey), List.eraseDups_cons,
          List.filter_filter, List.append_assoc, hnew]
        rfl

/-- Where all writes to a key agree with a function, their order does not matter. -/
theorem get?_insertAll_of_agree (m : OrderedMap α) {pairs : List (Text × α)}
    (value : Text → Option α) (h : ∀ pair ∈ pairs, value pair.1 = some pair.2) (key : Text) :
    (m.insertAll pairs).get? key
      = if key ∈ pairs.map (·.1) then value key else m.get? key := by
  induction pairs generalizing m with
  | nil => rfl
  | cons pair rest ih =>
      obtain ⟨hpair, hrest⟩ := List.forall_mem_cons.mp h
      rw [insertAll_cons, ih _ hrest, get?_insert, List.map_cons]
      by_cases hmem : key ∈ rest.map (·.1)
      · rw [if_pos hmem, if_pos (List.mem_cons_of_mem _ hmem)]
      · by_cases hkey : pair.1 = key
        · rw [if_neg hmem, if_pos hkey, if_pos (hkey ▸ List.mem_cons_self), ← hkey, hpair]
        · have hnot : key ∉ pair.1 :: rest.map (·.1) :=
            List.not_mem_cons_of_ne_of_not_mem (Ne.symm hkey) hmem
          rw [if_neg hmem, if_neg hkey, if_neg hnot]

/-! ## Writing twice -/

/-- Of two writes to a key the second counts. -/
theorem insert_insert (m : OrderedMap α) (key : Text) (value value' : α) :
    (m.insert key value).insert key value' = m.insert key value' := by
  have hput : ∀ entries : List (Text × α),
      put (put entries key value) key value' = put entries key value' := by
    intro entries
    induction entries with
    | nil => rw [put, put, put, if_pos rfl]
    | cons entry rest ih =>
        obtain ⟨k, v⟩ := entry
        rw [put, put]
        by_cases hk : k = key
        · rw [if_pos hk, if_pos hk, put, if_pos hk]
        · rw [if_neg hk, if_neg hk, put, if_neg hk, ih]
  rw [insert, insert, insert, hput]

/-- A write to a key that is there and a write to another key may change places. -/
theorem insert_comm {m : OrderedMap α} {key other : Text} (hmem : key ∈ m.keys) (hne : key ≠ other)
    (value value' : α) :
    (m.insert key value).insert other value' = (m.insert other value').insert key value := by
  have hput : ∀ entries : List (Text × α), key ∈ entries.map (·.1) →
      put (put entries key value) other value' = put (put entries other value') key value := by
    intro entries hentries
    induction entries with
    | nil => cases hentries
    | cons entry rest ih =>
        obtain ⟨k, v⟩ := entry
        rw [put, put]
        by_cases hk : k = key
        · have hko : k ≠ other := fun heq => hne (hk.symm.trans heq)
          rw [if_pos hk, if_neg hko, put, if_neg hko, put, if_pos hk]
        · have hrest : key ∈ rest.map (·.1) := (List.mem_cons.mp hentries).resolve_left (Ne.symm hk)
          by_cases hko : k = other
          · rw [if_neg hk, if_pos hko, put, if_pos hko, put, if_neg hk]
          · rw [if_neg hk, if_neg hko, put, if_neg hko, put, if_neg hk, ih hrest]
  rw [insert, insert, insert, insert, hput m.entries hmem]

/-- A write to a key that is there does not show behind writes to this key. -/
theorem insertAll_insert {m : OrderedMap α} {key : Text} {pairs : List (Text × α)}
    (hmem : key ∈ m.keys) (hpairs : key ∈ pairs.map (·.1)) (value : α) :
    (m.insert key value).insertAll pairs = m.insertAll pairs := by
  induction pairs generalizing m with
  | nil => cases hpairs
  | cons pair rest ih =>
      rw [insertAll_cons, insertAll_cons]
      by_cases hkey : key = pair.1
      · rw [← hkey, insert_insert]
      · have hrest : key ∈ rest.map (·.1) := (List.mem_cons.mp hpairs).resolve_left hkey
        have hstill : key ∈ (m.insert pair.1 pair.2).keys := mem_keys_insert.mpr (.inl hmem)
        rw [insert_comm hmem hkey, ih hstill hrest]

/-- Writes that agree with a map in what they come to leave it as it is. -/
theorem insertAll_of_get? {m : OrderedMap α} {pairs : List (Text × α)}
    (h : ∀ key ∈ pairs.map (·.1),
      m.get? key = (pairs.reverse.find? (fun pair => pair.1 = key)).map (·.2)) :
    m.insertAll pairs = m := by
  induction pairs with
  | nil => rfl
  | cons pair rest ih =>
      have hrest : ∀ key ∈ rest.map (·.1),
          m.get? key = (rest.reverse.find? (fun pair => pair.1 = key)).map (·.2) := by
        intro key hkey
        rw [h key (List.mem_cons_of_mem _ hkey), List.reverse_cons, List.find?_append,
          Option.or_of_isSome (isSome_find?_reverse hkey)]
      rw [insertAll_cons]
      by_cases hlater : pair.1 ∈ rest.map (·.1)
      · -- a later write to the same key covers this one
        have hmem : pair.1 ∈ m.keys := by
          refine contains_iff_mem_keys.mp ?_
          rw [contains, hrest _ hlater, Option.isSome_map]
          exact isSome_find?_reverse hlater
        rw [insertAll_insert hmem hlater, ih hrest]
      · have hlast : m.get? pair.1 = some pair.2 := by
          have hnone : rest.reverse.find? (fun other => other.1 = pair.1) = none := by
            refine List.find?_eq_none.mpr fun other hother heq => hlater ?_
            rw [← of_decide_eq_true heq]
            exact List.mem_map_of_mem (List.mem_reverse.mp hother)
          have hfirst := h pair.1 List.mem_cons_self
          rw [List.reverse_cons, List.find?_append, hnone, Option.none_or] at hfirst
          have hfound : [pair].find? (fun other => other.1 = pair.1) = some pair :=
            List.find?_cons_of_pos (decide_eq_true rfl)
          rw [hfirst, hfound]
          rfl
        rw [insert_of_get? hlast, ih hrest]

/-- Writing the same pairs again changes nothing, even where one of them covers another. -/
theorem insertAll_insertAll (m : OrderedMap α) (pairs : List (Text × α)) :
    (m.insertAll pairs).insertAll pairs = m.insertAll pairs := by
  refine insertAll_of_get? fun key hkey => ?_
  rw [get?_insertAll, Option.or_of_isSome]
  rw [Option.isSome_map]
  exact isSome_find?_reverse hkey

end OrderedMap

/-- A context without repeated names is handed over as it is. -/
theorem Context.ofBindings_entries {context : Context} (h : context.Distinct) :
    Context.ofBindings (.pairs context.entries) = context := by
  have hentries : Bindings.entries (.pairs context.entries) = context.entries := by
    rw [Bindings.entries, OrderedMap.ofList_entries h]
  rw [Context.ofBindings, Context.assign, hentries]
  exact OrderedMap.ofList_entries h

end Formulary
