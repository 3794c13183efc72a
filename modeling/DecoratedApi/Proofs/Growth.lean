import DecoratedApi.Proofs.Steps

/-!
# The state only grows

A call keeps every entry, its place and its slot, and appends to the deferred work; whatever it
postpones is the inheritance of a type that it began itself. When it succeeds, it leaves no new
placeholder.
-/

namespace DecoratedApi

open Resolve

/-! ## Traversals -/

/-- A relation between states, and a fact about types that it keeps. -/
structure Invariant (R : Bool → ResolverState → ResolverState → Prop)
    (V : ResolverState → ApiType → Prop) : Prop extends Sequential R where
  keeps : ∀ {ok s s' t}, R ok s s' → V s t → V s' t

/-- Every call relates the states, and gives a type with the fact. -/
def Resolver.Recursor.Meets (self : Resolver.Recursor)
    (R : Bool → ResolverState → ResolverState → Prop) (V : ResolverState → ApiType → Prop) : Prop :=
  ∀ node ctx s, Yields R (self node ctx) s V

namespace Resolver

section Traversal

variable {R : Bool → ResolverState → ResolverState → Prop} {V : ResolverState → ApiType → Prop}
variable (hI : Invariant R V) {self : Recursor} (hself : self.Meets R V)

include hI hself

theorem property_yields (flag : Bool) (p : PropertyDecl) (s : ResolverState) :
    Yields R (property self flag p) s fun s' q => V s' q.type := by
  refine (hself _ _ s).bind hI.toSequential fun type s₁ _ htype => ?_
  refine yields_ofOutcome_bind hI.toSequential fun validators _ => ?_
  exact yields_pure hI.toSequential htype

theorem properties_yields (flag : Bool) (ps : List PropertyDecl) (s : ResolverState) :
    Yields R (properties self flag ps) s fun s' qs => ∀ q ∈ qs, V s' q.type := by
  induction ps generalizing s with
  | nil => exact yields_pure hI.toSequential (by simp)
  | cons p rest ih =>
    refine (property_yields hI hself flag p s).bind hI.toSequential fun q s₁ _ hq => ?_
    refine (ih s₁).bind hI.toSequential fun qs s₂ hrel hqs => ?_
    exact yields_pure hI.toSequential (by simpa using ⟨hI.keeps hrel hq, hqs⟩)

theorem additional_yields (index : Option TypeNode) (s : ResolverState) :
    Yields R (additional self index) s fun s' a => ∀ t, a = some t → V s' t := by
  cases index with
  | none => exact yields_pure hI.toSequential (by simp)
  | some node =>
    refine (hself _ _ s).bind hI.toSequential fun type s₁ _ htype => ?_
    exact yields_pure hI.toSequential (by simpa using htype)

end Traversal
end Resolver

/-! ## Growth -/

namespace ResolverState

/-- Entries keep their places and slots, and deferred work stays queued. An inheritance is postponed
only for a type that is new, and so no entry begins to wait. -/
structure Grows (s s' : ResolverState) : Prop where
  entries : s.table.entries <+: s'.table.entries
  deferred : ∃ added, s'.deferred = s.deferred ++ added ∧
    ∀ target base, .inherit target base ∈ added → s.table.contains target = false
  waiting : ∀ name, s.table.contains name = true →
    s'.table.isInheriting name = s.table.isInheriting name

variable {s s' s'' : ResolverState} {name : String}

namespace Grows

theorem slot?_eq (h : s.Grows s') (hname : s.table.contains name = true) :
    s'.table.slot? name = s.table.slot? name := by
  obtain ⟨added, hadded⟩ := h.entries
  rw [ReferenceTable.contains_iff] at hname
  obtain ⟨slot, hslot⟩ := Option.isSome_iff_exists.mp hname
  rw [ReferenceTable.slot?, ← hadded, OrderedMap.find?_append, hslot]
  unfold ReferenceTable.slot? at hslot
  simp [hslot]

theorem slot?_eq_some {slot : Slot} (h : s.Grows s') (hslot : s.table.slot? name = some slot) :
    s'.table.slot? name = some slot := by
  have hname : s.table.contains name = true := by
    rw [ReferenceTable.contains_iff, hslot]
    rfl
  rw [h.slot?_eq hname, hslot]

theorem contains (h : s.Grows s') (hname : s.table.contains name = true) :
    s'.table.contains name = true := by
  rw [ReferenceTable.contains_congr (h.slot?_eq hname)]
  exact hname

theorem not_contains (h : s.Grows s') (hname : s'.table.contains name = false) :
    s.table.contains name = false := by
  by_contra hne
  rw [h.contains (by simpa using hne)] at hname
  cases hname

theorem refl (s : ResolverState) : s.Grows s where
  entries := List.prefix_rfl
  deferred := ⟨[], by simp⟩
  waiting := fun _ _ => rfl

theorem trans (h : s.Grows s') (h' : s'.Grows s'') : s.Grows s'' where
  entries := h.entries.trans h'.entries
  deferred := by
    obtain ⟨added, heq, hnew⟩ := h.deferred
    obtain ⟨added', heq', hnew'⟩ := h'.deferred
    refine ⟨added ++ added', by rw [heq', heq, List.append_assoc], fun target base hmem => ?_⟩
    rcases List.mem_append.mp hmem with hmem | hmem
    · exact hnew target base hmem
    · exact h.not_contains (hnew' target base hmem)
  waiting := fun name hname => by
    rw [h'.waiting name (h.contains hname), h.waiting name hname]

theorem opened (hname : s.table.contains name = false) : s.Grows (s.opened name) where
  entries := by
    rw [ResolverState.opened, ReferenceTable.entries_reserve hname]
    exact List.prefix_append _ _
  deferred := ⟨[], by simp [ResolverState.opened]⟩
  waiting := fun _ _ => by simp [ResolverState.opened]

theorem abandoned (h : s.Grows s') : s.Grows s'.abandoned := ⟨h.entries, h.deferred, h.waiting⟩

theorem linked (h : s.Grows s') (name : String) : s.Grows (s'.linked name) where
  entries := h.entries
  deferred := by
    obtain ⟨added, heq, hnew⟩ := h.deferred
    refine ⟨added ++ [.link name (s'.building.head?.getD "")], ?_, fun target base hmem => ?_⟩
    · rw [ResolverState.linked, heq, List.append_assoc]
    · exact hnew target base (by simpa using hmem)
  waiting := h.waiting

theorem postponed (h : s.Grows s') (hname : s.table.contains name = false) (base : String) :
    s.Grows (s'.postponed name base) where
  entries := h.entries
  deferred := by
    obtain ⟨added, heq, hnew⟩ := h.deferred
    refine ⟨added ++ [.inherit name base], ?_, fun target base' hmem => ?_⟩
    · rw [ResolverState.postponed, heq, List.append_assoc]
    · rcases List.mem_append.mp hmem with hmem | hmem
      · exact hnew target base' hmem
      · obtain ⟨rfl, -⟩ : target = name ∧ base' = base := by simpa using hmem
        exact hname
  waiting := fun other hother => by
    have hne : other ≠ name := by
      rintro rfl
      rw [hother] at hname
      cases hname
    rw [← h.waiting other hother, Bool.eq_iff_iff]
    simp [ResolverState.postponed, ReferenceTable.isInheriting_awaitBase, hne]

theorem filled (h : s.Grows s') {d : Definition} (hname : s.table.contains d.name = false) :
    s.Grows { s' with table := s'.table.fill d } where
  entries := by
    obtain ⟨added, hadded⟩ := h.entries
    have hkey : d.name ∉ OrderedMap.keys s.table.entries := by
      rw [← ReferenceTable.contains_iff_mem, hname]
      simp
    refine ⟨OrderedMap.set d.name (.ready d) added, ?_⟩
    simp only [ReferenceTable.fill, ← hadded]
    exact (OrderedMap.set_append_of_notMem hkey _ _).symm
  deferred := h.deferred
  waiting := h.waiting

end Grows
end ResolverState
end DecoratedApi
