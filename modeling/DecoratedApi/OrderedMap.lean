/-!
# Ordered maps

A map from names to values, as the list of its entries in the order in which the names first came.
Setting a name that is already there keeps its place.
-/

namespace DecoratedApi

/-- The entries of a map, in order. -/
abbrev OrderedMap (α : Type) := List (String × α)

namespace OrderedMap

variable {α : Type}

/-- Sets the value under a key. A key that is already there keeps its place. -/
def set (key : String) (value : α) : OrderedMap α → OrderedMap α
  | [] => [(key, value)]
  | (k, v) :: rest => if k = key then (k, value) :: rest else (k, v) :: set key value rest

def find? (key : String) : OrderedMap α → Option α
  | [] => none
  | (k, v) :: rest => if k = key then some v else find? key rest

def erase (key : String) (m : OrderedMap α) : OrderedMap α := m.filter (·.1 != key)

/-- The entries set one after the other. -/
def ofList (entries : List (String × α)) : OrderedMap α :=
  entries.foldl (fun m (k, v) => set k v m) []

def keys (m : OrderedMap α) : List String := m.map (·.1)

theorem find?_set_self (key : String) (value : α) (m : OrderedMap α) :
    find? key (set key value m) = some value := by
  induction m with
  | nil => simp [set, find?]
  | cons e rest ih =>
    obtain ⟨k, v⟩ := e
    by_cases h : k = key <;> simp [set, find?, h, ih]

theorem find?_set_of_ne {key other : String} (h : other ≠ key) (value : α) (m : OrderedMap α) :
    find? other (set key value m) = find? other m := by
  induction m with
  | nil => simp [set, find?, Ne.symm h]
  | cons e rest ih =>
    obtain ⟨k, v⟩ := e
    by_cases hk : k = key
    · simp [set, find?, hk, Ne.symm h]
    · by_cases ho : k = other
      · subst ho; simp [set, find?, hk]
      · simp [set, find?, hk, ho, ih]

end OrderedMap
end DecoratedApi
