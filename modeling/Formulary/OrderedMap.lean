import Formulary.Text.Basic

/-!
# Maps that remember the order of arrival

A map from texts to values whose entries stand in the order in which their keys first arrived.
Writing to a key that is present keeps its place.

- `OrderedMap.get?` reads and `OrderedMap.insert` writes; `OrderedMap.get?_insert` relates the two.
- `OrderedMap.keys_insert` says which keys there are after a write, and in which order.
-/

namespace Formulary

/-- A map given by its entries in order of arrival. -/
structure OrderedMap (α : Type) where
  /-- The entries. -/
  entries : List (Text × α)
  deriving DecidableEq, Repr

namespace OrderedMap

variable {α β : Type}

/-- The map without entries. -/
def empty : OrderedMap α := ⟨[]⟩

/-- The value under a key among some entries. -/
def lookup : List (Text × α) → Text → Option α
  | [], _ => none
  | (k, v) :: rest, key => if k = key then some v else lookup rest key

/-- Some entries with a value written to a key: in its place, or at the end. -/
def put : List (Text × α) → Text → α → List (Text × α)
  | [], key, value => [(key, value)]
  | (k, v) :: rest, key, value =>
    if k = key then (k, value) :: rest else (k, v) :: put rest key value

/-- The value under a key. -/
def get? (m : OrderedMap α) (key : Text) : Option α := lookup m.entries key

/-- Whether a key is present. -/
def contains (m : OrderedMap α) (key : Text) : Bool := (m.get? key).isSome

/-- The map with a value written to a key. -/
def insert (m : OrderedMap α) (key : Text) (value : α) : OrderedMap α := ⟨put m.entries key value⟩

/-- The map without a key. -/
def erase (m : OrderedMap α) (key : Text) : OrderedMap α :=
  ⟨m.entries.filter (fun entry => entry.1 ≠ key)⟩

/-- The keys in order of arrival. -/
def keys (m : OrderedMap α) : List Text := m.entries.map (·.1)

/-- How many keys are present. -/
def size (m : OrderedMap α) : Nat := m.entries.length

/-- The map with some pairs written to it in turn. -/
def insertAll (m : OrderedMap α) (pairs : List (Text × α)) : OrderedMap α :=
  pairs.foldl (fun m pair => m.insert pair.1 pair.2) m

/-- The map of some pairs: a repeated key keeps its first place and takes its last value. -/
def ofList (pairs : List (Text × α)) : OrderedMap α := empty.insertAll pairs

/-! ## Reading after writing -/

theorem lookup_put (entries : List (Text × α)) (key other : Text) (value : α) :
    lookup (put entries key value) other = if key = other then some value else lookup entries other
    := by
  induction entries with
  | nil => simp [put, lookup]
  | cons entry rest ih =>
    obtain ⟨k, v⟩ := entry
    by_cases hk : k = key
    · subst hk
      by_cases ho : k = other <;> simp [put, lookup, ho]
    · by_cases ho : k = other
      · subst ho
        simp [put, lookup, hk, Ne.symm hk]
      · simp [put, lookup, hk, ho, ih]

@[simp] theorem get?_empty (key : Text) : (empty : OrderedMap α).get? key = none := rfl

/-- A write is read back under its key and leaves the other keys alone. -/
theorem get?_insert (m : OrderedMap α) (key other : Text) (value : α) :
    (m.insert key value).get? other = if key = other then some value else m.get? other :=
  lookup_put m.entries key other value

theorem keys_put (entries : List (Text × α)) (key : Text) (value : α) :
    (put entries key value).map (·.1)
      = if key ∈ entries.map (·.1) then entries.map (·.1) else entries.map (·.1) ++ [key] := by
  induction entries with
  | nil => simp [put]
  | cons entry rest ih =>
    obtain ⟨k, v⟩ := entry
    by_cases hk : k = key
    · subst hk
      simp [put]
    · simp only [put, hk, if_false, List.map_cons, ih, List.mem_cons, Ne.symm hk, false_or]
      split <;> simp

/-- A write keeps the keys and their order, and puts a new key last. -/
theorem keys_insert (m : OrderedMap α) (key : Text) (value : α) :
    (m.insert key value).keys = if key ∈ m.keys then m.keys else m.keys ++ [key] :=
  keys_put m.entries key value

end OrderedMap

end Formulary
