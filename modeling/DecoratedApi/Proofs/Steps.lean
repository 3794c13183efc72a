import DecoratedApi.Proofs.Plan
import DecoratedApi.Proofs.Table

/-!
# The changes that the resolver makes

The resolver changes its state in six ways: it opens a type, closes or abandons it, notes a link,
postpones an inheritance, and puts an enum into the table. `reference`, `inheritOne` and
`Plan.registered` are described by these changes once, and are not opened again.
-/

namespace DecoratedApi

namespace ResolverState

/-- The building of a type begins. -/
def opened (s : ResolverState) (name : String) : ResolverState :=
  { s with table := s.table.reserve name, building := name :: s.building }

/-- The type that is being built is ready. -/
def closed (s : ResolverState) (d : ObjectDefinition) : ResolverState :=
  { s with table := s.table.fill (.object d), building := s.building.tail }

/-- The building of a type has failed. Its placeholder stays. -/
def abandoned (s : ResolverState) : ResolverState := { s with building := s.building.tail }

/-- A placeholder is mentioned. -/
def linked (s : ResolverState) (name : String) : ResolverState :=
  { s with deferred := s.deferred ++ [.link name (s.building.head?.getD "")] }

/-- The properties of the base come later. -/
def postponed (s : ResolverState) (target base : String) : ResolverState :=
  { s with table := s.table.awaitBase target, deferred := s.deferred ++ [.inherit target base] }

/-- An enum is ready. -/
def enrolled (s : ResolverState) (d : EnumDefinition) : ResolverState :=
  { s with table := s.table.fill (.enum d) }

theorem slot?_closed (s : ResolverState) (d : ObjectDefinition) :
    (s.closed d).table.slot? d.name = some (.ready (.object d)) := by
  rw [closed, ReferenceTable.slot?_fill, Definition.name_object, if_pos rfl]

theorem slot?_enrolled (s : ResolverState) (d : EnumDefinition) :
    (s.enrolled d).table.slot? d.name = some (.ready (.enum d)) := by
  rw [enrolled, ReferenceTable.slot?_fill, Definition.name_enum, if_pos rfl]

end ResolverState

namespace Resolver

variable {s : ResolverState} {name : String} {build : String → Resolve ObjectDefinition}

theorem reference_known (h : s.table.contains name = true) :
    (reference name build).runFrom s =
      some (.ok (.refObject name), if s.table.isPending name then s.linked name else s) := by
  unfold reference
  rw [Resolve.runFrom_bind]
  simp only [Resolve.runFrom_get, h, if_true]
  split <;> rfl

theorem reference_new (h : s.table.contains name = false) :
    (reference name build).runFrom s =
      match (build name).runFrom (s.opened name) with
      | none => none
      | some (.ok d, s') => some (.ok (.refObject name), s'.closed d)
      | some (.error e, s') => some (.error e, s'.abandoned) := by
  unfold reference
  rw [Resolve.runFrom_bind]
  simp only [Resolve.runFrom_get, h, Bool.false_eq_true, if_false]
  rw [Resolve.runFrom_bind]
  simp only [Resolve.runFrom_set]
  rw [Resolve.runFrom_bind, Resolve.runFrom_outcome]
  simp only [ResolverState.opened]
  rcases (build name).runFrom _ with _ | ⟨_ | d, s'⟩ <;> rfl

theorem registered_run (d : EnumDefinition) :
    (Plan.registered d).runFrom s =
      some (.ok (.refEnum d.name), if s.table.contains d.name then s else s.enrolled d) := by
  unfold Plan.registered
  rw [Resolve.runFrom_bind]
  simp only [Resolve.runFrom_get]
  cases s.table.contains d.name <;> rfl

/-- Takes over the properties of a base that is known by its name. -/
def takeOver (d : ObjectDefinition) : ApiType → Resolve ObjectDefinition
  | .refObject name => do
    let s ← get
    if s.table.isComplete name then
      match s.table.object? name with
      | some b => pure (d.inherit b)
      | none => pure d
    else
      set (s.postponed d.name name)
      pure d
  | other => throw (.cannotExtend d.name other)

theorem inheritOne_eq (self : Recursor) (d : ObjectDefinition) (base : TypeNode) :
    inheritOne self d base = self base {} >>= takeOver d := by
  unfold inheritOne
  congr

theorem takeOver_complete {d : ObjectDefinition} (h : s.table.isComplete name = true) :
    (takeOver d (.refObject name)).runFrom s =
      some (.ok ((s.table.object? name).elim d d.inherit), s) := by
  unfold takeOver
  rw [Resolve.runFrom_bind]
  simp only [Resolve.runFrom_get, h, if_true]
  cases s.table.object? name <;> rfl

theorem takeOver_incomplete {d : ObjectDefinition} (h : s.table.isComplete name = false) :
    (takeOver d (.refObject name)).runFrom s = some (.ok d, s.postponed d.name name) := by
  unfold takeOver
  rw [Resolve.runFrom_bind]
  simp only [Resolve.runFrom_get, h, Bool.false_eq_true, if_false]
  rfl

end Resolver
end DecoratedApi
