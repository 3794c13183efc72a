import DecoratedApi.Proofs.Growth

/-!
# Well-formed states

The invariant of the resolver: every definition stands under its own name and mentions only names of
the table, and all deferred work concerns entries of the table that are objects, or will be when
they are ready. Each of the six changes keeps it.
-/

namespace DecoratedApi

/-! ## Names that a definition mentions -/

/-- The name occurs in a property or in the type of additional properties, at any depth. -/
def ObjectDefinition.Mentions (d : ObjectDefinition) (name : String) : Prop :=
  (∃ q ∈ d.properties, q.type.mentioned? = some name) ∨
    ∃ t, d.additional = some t ∧ t.mentioned? = some name

/-- The name occurs in an object definition; enums mention none. -/
def Definition.Mentions (d : Definition) (name : String) : Prop :=
  ∃ o, d.object? = some o ∧ o.Mentions name

namespace ObjectDefinition

theorem mem_addMissing {ps : List Property} {p q : Property} (h : q ∈ addMissing ps p) :
    q ∈ ps ∨ q = p := by
  unfold addMissing at h
  split at h
  · exact .inl h
  · simpa using h

theorem mem_foldl_addMissing {bs ps : List Property} {q : Property}
    (h : q ∈ bs.foldl addMissing ps) : q ∈ ps ∨ q ∈ bs := by
  induction bs generalizing ps with
  | nil => exact .inl h
  | cons b rest ih =>
    rcases ih h with hmem | hmem
    · rcases mem_addMissing hmem with hmem | rfl
      · exact .inl hmem
      · exact .inr List.mem_cons_self
    · exact .inr (List.mem_cons_of_mem _ hmem)

theorem Mentions.of_inherit {d b : ObjectDefinition} {name : String}
    (h : (d.inherit b).Mentions name) : d.Mentions name ∨ b.Mentions name := by
  rcases h with ⟨q, hq, hname⟩ | ⟨t, ht, hname⟩
  · rcases mem_foldl_addMissing hq with hq | hq
    · exact .inl (.inl ⟨q, hq, hname⟩)
    · exact .inr (.inl ⟨q, hq, hname⟩)
  · cases hd : d.additional with
    | some t' =>
      obtain rfl : t' = t := by simpa [inherit, hd] using ht
      exact .inl (.inr ⟨t', hd, hname⟩)
    | none => exact .inr (.inr ⟨t, by simpa [inherit, hd] using ht, hname⟩)

end ObjectDefinition

/-! ## Tables -/

namespace ReferenceTable

/-- Each name has one entry, and a definition under it is that of the name and mentions only names
of the table. -/
structure WellFormed (t : ReferenceTable) : Prop where
  nodup : (OrderedMap.keys t.entries).Nodup
  named : ∀ name d, t.slot? name = some (.ready d) → d.name = name
  closed : ∀ name d, t.slot? name = some (.ready d) → ∀ other, d.Mentions other →
    t.contains other = true

variable {t : ReferenceTable} {name : String}

theorem WellFormed.reserve (h : t.WellFormed) (hname : t.contains name = false) :
    (t.reserve name).WellFormed where
  nodup := by
    rw [entries_reserve hname, OrderedMap.keys, List.map_append]
    refine List.Nodup.append h.nodup (by simp) ?_
    rw [← Bool.not_eq_true, contains_iff_mem] at hname
    simpa [OrderedMap.keys] using hname
  named := fun other d hslot => by
    rw [slot?_reserve hname] at hslot
    split at hslot
    · cases hslot
    · exact h.named other d hslot
  closed := fun other d hslot n hn => by
    rw [slot?_reserve hname] at hslot
    split at hslot
    · cases hslot
    · rw [contains_iff, slot?_reserve hname]
      split
      · rfl
      · exact h.closed other d hslot n hn

theorem WellFormed.fill (h : t.WellFormed) {d : Definition}
    (hd : ∀ other, d.Mentions other → t.contains other = true) : (t.fill d).WellFormed where
  nodup := by
    by_cases hkey : d.name ∈ OrderedMap.keys t.entries
    · rw [ReferenceTable.fill, OrderedMap.keys_set_of_mem hkey]
      exact h.nodup
    · rw [ReferenceTable.fill, OrderedMap.set_of_notMem hkey, OrderedMap.keys, List.map_append]
      exact List.Nodup.append h.nodup (by simp) (by simpa [OrderedMap.keys] using hkey)
  named := fun other d' hslot => by
    rw [slot?_fill] at hslot
    split at hslot
    · next he =>
      obtain rfl : d = d' := by simpa using hslot
      exact he.symm
    · exact h.named other d' hslot
  closed := fun other d' hslot n hn => by
    rw [contains_iff, slot?_fill]
    rw [slot?_fill] at hslot
    split
    · rfl
    · split at hslot
      · obtain rfl : d = d' := by simpa using hslot
        exact hd n hn
      · exact h.closed other d' hslot n hn

theorem HoldsObject.reserve {other : String} (hname : t.contains name = false)
    (h : t.HoldsObject other) : (t.reserve name).HoldsObject other := by
  unfold HoldsObject
  rw [slot?_reserve hname]
  split
  · exact .inl rfl
  · exact h

theorem HoldsObject.fill_object {d : ObjectDefinition} (h : t.HoldsObject name) :
    (t.fill (.object d)).HoldsObject name := by
  unfold HoldsObject
  rw [slot?_fill]
  split
  · exact .inr ⟨d, rfl⟩
  · exact h

theorem HoldsObject.fill_enum {d : EnumDefinition} (hd : t.contains d.name = false)
    (h : t.HoldsObject name) : (t.fill (.enum d)).HoldsObject name := by
  have hne : name ≠ (Definition.enum d).name := by
    rintro rfl
    rw [show t.contains d.name = true from h.contains] at hd
    cases hd
  unfold HoldsObject
  rw [slot?_fill, if_neg hne]
  exact h

theorem holdsObject_of_incomplete (hwait : t.isInheriting name = true → t.HoldsObject name)
    (hname : t.contains name = true) (h : t.isComplete name = false) : t.HoldsObject name := by
  -- An entry that is not complete is an object: enums never wait.
  obtain ⟨slot, hslot⟩ := Option.isSome_iff_exists.mp (contains_iff.mp hname)
  cases slot with
  | pending => exact .inl hslot
  | ready d =>
    apply hwait
    by_contra hne
    rw [Bool.not_eq_true] at hne
    rw [isComplete_iff.mpr ⟨⟨d, hslot⟩, hne⟩] at h
    cases h

end ReferenceTable

/-! ## States -/

namespace ResolverState

/-- The table is well formed, deferred work is about its entries, and only objects wait. -/
structure WellFormed (s : ResolverState) : Prop where
  table : s.table.WellFormed
  links : ∀ name referrer, .link name referrer ∈ s.deferred → s.table.contains name = true
  inherits : ∀ target base, .inherit target base ∈ s.deferred →
    s.table.HoldsObject target ∧ s.table.HoldsObject base ∧ s.table.isInheriting target = true
  waiting : ∀ name, s.table.isInheriting name = true → s.table.HoldsObject name

variable {s : ResolverState} {name : String}

namespace WellFormed

theorem fresh : WellFormed {} where
  table :=
    { nodup := List.nodup_nil
      named := fun _ _ h => by cases h
      closed := fun _ _ h => by cases h }
  links := fun _ _ h => by cases h
  inherits := fun _ _ h => by cases h
  waiting := fun _ h => by cases h

theorem opened (h : s.WellFormed) (hname : s.table.contains name = false) :
    (s.opened name).WellFormed where
  table := h.table.reserve hname
  links := fun other referrer hmem =>
    (Grows.opened hname).contains (h.links other referrer hmem)
  inherits := fun target base hmem => by
    obtain ⟨htarget, hbase, hwait⟩ := h.inherits target base hmem
    exact ⟨htarget.reserve hname, hbase.reserve hname, by simpa [ResolverState.opened] using hwait⟩
  waiting := fun other hwait =>
    (h.waiting other (by simpa [ResolverState.opened] using hwait)).reserve hname

theorem abandoned (h : s.WellFormed) : s.abandoned.WellFormed :=
  ⟨h.table, h.links, h.inherits, h.waiting⟩

theorem closed (h : s.WellFormed) {d : ObjectDefinition}
    (hd : ∀ other, d.Mentions other → s.table.contains other = true) :
    (s.closed d).WellFormed where
  table := by
    refine h.table.fill fun other hother => ?_
    obtain ⟨o, ho, hmention⟩ := hother
    obtain rfl : d = o := by simpa [Definition.object?] using ho
    exact hd other hmention
  links := fun other referrer hmem => by
    have hslot := ReferenceTable.contains_iff.mp (h.links other referrer hmem)
    rw [ResolverState.closed, ReferenceTable.contains_iff, ReferenceTable.slot?_fill]
    split
    · rfl
    · exact hslot
  inherits := fun target base hmem => by
    obtain ⟨htarget, hbase, hwait⟩ := h.inherits target base hmem
    exact ⟨htarget.fill_object, hbase.fill_object, hwait⟩
  waiting := fun other hwait => (h.waiting other hwait).fill_object

theorem enrolled (h : s.WellFormed) {d : EnumDefinition} (hd : s.table.contains d.name = false) :
    (s.enrolled d).WellFormed where
  table := by
    refine h.table.fill fun other hother => ?_
    obtain ⟨o, ho, -⟩ := hother
    cases ho
  links := fun other referrer hmem =>
    ((Grows.refl s).filled (d := .enum d) hd).contains (h.links other referrer hmem)
  inherits := fun target base hmem => by
    obtain ⟨htarget, hbase, hwait⟩ := h.inherits target base hmem
    exact ⟨htarget.fill_enum hd, hbase.fill_enum hd, hwait⟩
  waiting := fun other hwait => (h.waiting other hwait).fill_enum hd

theorem linked (h : s.WellFormed) (hname : s.table.contains name = true) :
    (s.linked name).WellFormed where
  table := h.table
  links := fun other referrer hmem => by
    rcases List.mem_append.mp hmem with hmem | hmem
    · exact h.links other referrer hmem
    · obtain ⟨rfl, -⟩ : other = name ∧ _ := by simpa using hmem
      exact hname
  inherits := fun target base hmem => h.inherits target base (by
    rcases List.mem_append.mp hmem with hmem | hmem
    · exact hmem
    · simp at hmem)
  waiting := h.waiting

theorem postponed (h : s.WellFormed) {base : String} (hname : s.table.HoldsObject name)
    (hbase : s.table.HoldsObject base) : (s.postponed name base).WellFormed where
  table := ⟨h.table.nodup, h.table.named, h.table.closed⟩
  links := fun other referrer hmem => by
    rcases List.mem_append.mp hmem with hmem | hmem
    · exact h.links other referrer hmem
    · simp at hmem
  inherits := fun target other hmem => by
    rcases List.mem_append.mp hmem with hmem | hmem
    · obtain ⟨htarget, hother, hwait⟩ := h.inherits target other hmem
      exact ⟨htarget, hother, ReferenceTable.isInheriting_awaitBase.mpr (.inr hwait)⟩
    · obtain ⟨rfl, rfl⟩ : target = name ∧ other = base := by simpa using hmem
      exact ⟨hname, hbase, ReferenceTable.isInheriting_awaitBase.mpr (.inl rfl)⟩
  waiting := fun other hwait => by
    rcases ReferenceTable.isInheriting_awaitBase.mp hwait with rfl | hwait
    · exact hname
    · exact h.waiting other hwait

end WellFormed
end ResolverState
end DecoratedApi
