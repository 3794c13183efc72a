import DecoratedApi.Proofs.Maps
import DecoratedApi.Reference.Table

/-!
# Laws of the table

Everything that is asked of the table is a question about the slot under a name, so the operations
are described by what they do to slots.
-/

namespace DecoratedApi

@[simp]
theorem Definition.name_object (d : ObjectDefinition) : (Definition.object d).name = d.name := rfl

@[simp]
theorem Definition.name_enum (d : EnumDefinition) : (Definition.enum d).name = d.name := rfl

namespace ReferenceTable

variable {t : ReferenceTable} {name other : String}

/-- The slot under a name. -/
def slot? (t : ReferenceTable) (name : String) : Option Slot := OrderedMap.find? name t.entries

theorem contains_iff : t.contains name = true ↔ (t.slot? name).isSome := Iff.rfl

theorem not_contains_iff : t.contains name = false ↔ t.slot? name = none := by
  rw [← Bool.not_eq_true, contains_iff]
  simp

theorem contains_iff_mem : t.contains name = true ↔ name ∈ OrderedMap.keys t.entries :=
  OrderedMap.find?_isSome_iff

theorem isPending_iff : t.isPending name = true ↔ t.slot? name = some .pending := by
  unfold isPending slot?
  rcases OrderedMap.find? name t.entries with _ | _ | d <;> simp

theorem get?_eq_some_iff {d : Definition} : t.get? name = some d ↔ t.slot? name = some (.ready d) := by
  unfold get? slot?
  rcases OrderedMap.find? name t.entries with _ | _ | d' <;> simp

theorem object?_eq_some_iff {d : ObjectDefinition} :
    t.object? name = some d ↔ t.slot? name = some (.ready (.object d)) := by
  unfold object?
  rw [← get?_eq_some_iff]
  rcases t.get? name with _ | _ | _ <;> simp [Definition.object?]

theorem isComplete_iff :
    t.isComplete name = true ↔ (∃ d, t.slot? name = some (.ready d)) ∧ t.isInheriting name = false := by
  simp only [isComplete, Bool.and_eq_true, Bool.not_eq_true', Option.isSome_iff_exists,
    get?_eq_some_iff]

theorem exists_ready (hname : t.contains name = true) (hpending : t.isPending name = false) :
    ∃ d, t.slot? name = some (.ready d) := by
  obtain ⟨slot, hslot⟩ := Option.isSome_iff_exists.mp (contains_iff.mp hname)
  cases slot with
  | pending =>
    rw [isPending_iff.mpr hslot] at hpending
    cases hpending
  | ready d => exact ⟨d, hslot⟩

theorem contains_congr {t' : ReferenceTable} (h : t'.slot? name = t.slot? name) :
    t'.contains name = t.contains name := congrArg Option.isSome h

/-- Whether the entry is an object, built or still to be built. -/
def HoldsObject (t : ReferenceTable) (name : String) : Prop :=
  t.slot? name = some .pending ∨ ∃ d, t.slot? name = some (.ready (.object d))

theorem HoldsObject.contains (h : t.HoldsObject name) : t.contains name = true := by
  rw [contains_iff]
  rcases h with h | ⟨d, h⟩ <;> simp [h]

/-! ## Operations -/

theorem entries_reserve (h : t.contains name = false) :
    (t.reserve name).entries = t.entries ++ [(name, .pending)] := by
  simp [reserve, h]

theorem slot?_reserve (h : t.contains name = false) :
    (t.reserve name).slot? other = if other = name then some .pending else t.slot? other := by
  have hnone := not_contains_iff.mp h
  rw [slot?, entries_reserve h, OrderedMap.find?_append]
  split
  · next he =>
    rw [he, show OrderedMap.find? name t.entries = none from hnone]
    simp [OrderedMap.find?]
  · next hne =>
    simp [OrderedMap.find?, Ne.symm hne, slot?]

@[simp]
theorem isInheriting_reserve : (t.reserve name).isInheriting other = t.isInheriting other := by
  unfold reserve
  split <;> rfl

theorem slot?_fill (d : Definition) :
    (t.fill d).slot? name = if name = d.name then some (.ready d) else t.slot? name := by
  unfold slot? fill
  rw [OrderedMap.find?_set]

@[simp]
theorem entries_awaitBase : (t.awaitBase name).entries = t.entries := rfl

theorem isInheriting_awaitBase :
    (t.awaitBase name).isInheriting other = true ↔ other = name ∨ t.isInheriting other = true := by
  unfold isInheriting awaitBase
  rw [OrderedMap.find?_set]
  split <;> simp_all

@[simp]
theorem entries_baseArrived : (t.baseArrived name).entries = t.entries := by
  unfold baseArrived
  split
  · rfl
  · split <;> rfl

end ReferenceTable
end DecoratedApi
