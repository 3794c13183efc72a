import DecoratedApi.Proofs.WellFormed

/-!
# What every call does

A call makes the state grow, keeps it well formed and puts back the stack of types that are being
built. When it succeeds it leaves no new placeholder, and the names in its answer are in the table.
-/

namespace DecoratedApi

open Resolve ResolverState

/-- The state before and the state after a call, which gave an answer or failed. -/
structure Advances (ok : Bool) (s s' : ResolverState) : Prop where
  grows : s.Grows s'
  building : s'.building = s.building
  wellFormed : s.WellFormed → s'.WellFormed
  settled : ok = true → ∀ name, s'.table.isPending name = true → s.table.isPending name = true

/-- The names in the type are in the table. -/
def Known (s : ResolverState) (t : ApiType) : Prop :=
  ∀ name, t.mentioned? = some name → s.table.contains name = true

theorem advances_invariant : Invariant Advances Known where
  refl := fun _ s => ⟨.refl s, rfl, id, fun _ _ h => h⟩
  trans := fun h h' =>
    { grows := h.grows.trans h'.grows
      building := h'.building.trans h.building
      wellFormed := fun hs => h'.wellFormed (h.wellFormed hs)
      settled := fun hok name hpending => h.settled rfl name (h'.settled hok name hpending) }
  keeps := fun h ht name hname => h.grows.contains (ht name hname)

namespace Resolver

variable {s₀ s s' : ResolverState} {key : String} {ok : Bool}

/-! ## While a type is being built -/

/-- The type `key`, which was new in `s₀`, is being built in `s`. -/
structure Building (ok : Bool) (s₀ : ResolverState) (key : String) (s : ResolverState) : Prop where
  grows : s₀.Grows s
  new : s₀.table.contains key = false
  slot : s.table.slot? key = some .pending
  building : s.building = key :: s₀.building
  wellFormed : s₀.WellFormed → s.WellFormed
  settled : ok = true → ∀ name, s.table.isPending name = true →
    name = key ∨ s₀.table.isPending name = true

/-- The names in the definition are in the table. -/
def KnownDefinition (s : ResolverState) (d : ObjectDefinition) : Prop :=
  ∀ name, d.Mentions name → s.table.contains name = true

theorem KnownDefinition.mono {d : ObjectDefinition} (hd : KnownDefinition s d) (h : s.Grows s') :
    KnownDefinition s' d := fun name hname => h.contains (hd name hname)

theorem KnownDefinition.inherit {d b : ObjectDefinition} (hd : KnownDefinition s d)
    (hb : KnownDefinition s b) : KnownDefinition s (d.inherit b) := by
  intro name hname
  rcases hname.of_inherit with h | h
  · exact hd name h
  · exact hb name h

theorem knownDefinition_of_object? (hs : s.WellFormed) {name : String} {d : ObjectDefinition}
    (h : s.table.object? name = some d) : KnownDefinition s d := fun other hother =>
  hs.table.closed name (.object d) (ReferenceTable.object?_eq_some_iff.mp h) other ⟨d, rfl, hother⟩

namespace Building

theorem opened (h : s.table.contains key = false) : Building true s key (s.opened key) where
  grows := .opened h
  new := h
  slot := by
    rw [ResolverState.opened, ReferenceTable.slot?_reserve h, if_pos rfl]
  building := rfl
  wellFormed := fun hs => hs.opened h
  settled := fun _ name hname => by
    rw [ReferenceTable.isPending_iff, ResolverState.opened, ReferenceTable.slot?_reserve h] at hname
    split at hname
    · next he => exact .inl he
    · exact .inr (ReferenceTable.isPending_iff.mpr hname)

theorem contains (h : Building ok s₀ key s) : s.table.contains key = true := by
  rw [ReferenceTable.contains_iff, h.slot]
  rfl

theorem advance (h : Building true s₀ key s) (h' : Advances ok s s') :
    Building ok s₀ key s' where
  grows := h.grows.trans h'.grows
  new := h.new
  slot := by rw [h'.grows.slot?_eq h.contains, h.slot]
  building := h'.building.trans h.building
  wellFormed := fun hs => h'.wellFormed (h.wellFormed hs)
  settled := fun hok name hname => h.settled rfl name (h'.settled hok name hname)

theorem postponed (h : Building true s₀ key s) {base : String}
    (hbase : s.WellFormed → s.table.HoldsObject base) :
    Building true s₀ key (s.postponed key base) where
  grows := h.grows.postponed h.new base
  new := h.new
  slot := h.slot
  building := h.building
  wellFormed := fun hs => (h.wellFormed hs).postponed (.inl h.slot) (hbase (h.wellFormed hs))
  settled := h.settled

theorem failed (h : Building true s₀ key s) : Building false s₀ key s :=
  ⟨h.grows, h.new, h.slot, h.building, h.wellFormed, by simp⟩

theorem closed (h : Building true s₀ key s) {d : ObjectDefinition} (hname : d.name = key)
    (hd : s₀.WellFormed → KnownDefinition s d) : Advances true s₀ (s.closed d) where
  grows := by
    have hgrows := h.grows.filled (d := .object d) (by rw [← h.new, ← hname]; rfl)
    exact ⟨hgrows.entries, hgrows.deferred, hgrows.waiting⟩
  building := by simp [ResolverState.closed, h.building]
  wellFormed := fun hs => (h.wellFormed hs).closed (hd hs)
  settled := fun _ other hother => by
    rw [ReferenceTable.isPending_iff, ResolverState.closed, ReferenceTable.slot?_fill] at hother
    split at hother
    · cases hother
    · next hne =>
      rcases h.settled rfl other (ReferenceTable.isPending_iff.mpr hother) with he | hpending
      · exact absurd (he.trans hname.symm) hne
      · exact hpending

theorem abandoned (h : Building false s₀ key s) : Advances false s₀ s.abandoned where
  grows := h.grows.abandoned
  building := by simp [ResolverState.abandoned, h.building]
  wellFormed := fun hs => (h.wellFormed hs).abandoned
  settled := by simp

end Building

/-! ## Building a type -/

section Build

variable {self : Recursor} (hself : self.Meets Advances Known)

include hself

theorem inheritOne_building {d : ObjectDefinition} (base : TypeNode) (h : Building true s₀ key s)
    (hname : d.name = key) (hd : s₀.WellFormed → KnownDefinition s d) :
    (inheritOne self d base).Ends s fun r s' => Building r.isOk s₀ key s' ∧
      ∀ d', r = .ok d' → d'.name = key ∧ (s₀.WellFormed → KnownDefinition s' d') := by
  rw [inheritOne_eq]
  refine Ends.bind (hself base {} s) ?_ ?_
  · rintro e s₁ ⟨hadv, -⟩
    exact ⟨h.advance hadv, by simp⟩
  · rintro type s₁ ⟨hadv, hknown⟩ r s₂ hrun
    have h₁ := h.advance hadv
    have hd₁ : s₀.WellFormed → KnownDefinition s₁ d := fun hs => (hd hs).mono hadv.grows
    cases type with
    | refObject name =>
      have hbase : s₁.table.contains name = true := hknown _ rfl name rfl
      cases hcomplete : s₁.table.isComplete name with
      | true =>
        rw [takeOver_complete hcomplete] at hrun
        obtain ⟨rfl, rfl⟩ : .ok _ = r ∧ s₁ = s₂ := by simpa using hrun
        refine ⟨h₁, ?_⟩
        rintro _ ⟨⟩
        cases hobject : s₁.table.object? name with
        | none => exact ⟨hname, hd₁⟩
        | some b =>
          refine ⟨hname, fun hs => (hd₁ hs).inherit ?_⟩
          exact knownDefinition_of_object? (h₁.wellFormed hs) hobject
      | false =>
        rw [takeOver_incomplete hcomplete] at hrun
        obtain ⟨rfl, rfl⟩ : .ok d = r ∧ s₁.postponed d.name name = s₂ := by simpa using hrun
        rw [hname]
        refine ⟨h₁.postponed fun hs => ?_, ?_⟩
        · exact ReferenceTable.holdsObject_of_incomplete (hs.waiting name) hbase hcomplete
        · rintro _ ⟨⟩
          exact ⟨hname, hd₁⟩
    | _ =>
      obtain ⟨rfl, rfl⟩ : .error _ = r ∧ s₁ = s₂ := by simpa [takeOver] using hrun
      exact ⟨h₁.failed, by simp⟩

theorem inheritAll_building {d : ObjectDefinition} (bases : List TypeNode)
    (h : Building true s₀ key s) (hname : d.name = key)
    (hd : s₀.WellFormed → KnownDefinition s d) :
    (inheritAll self d bases).Ends s fun r s' => Building r.isOk s₀ key s' ∧
      ∀ d', r = .ok d' → d'.name = key ∧ (s₀.WellFormed → KnownDefinition s' d') := by
  induction bases generalizing s d with
  | nil =>
    intro r s' hrun
    obtain ⟨rfl, rfl⟩ : .ok d = r ∧ s = s' := by simpa [inheritAll] using hrun
    refine ⟨h, ?_⟩
    rintro _ ⟨⟩
    exact ⟨hname, hd⟩
  | cons base rest ih =>
    refine (inheritOne_building hself base h hname hd).bind ?_ ?_
    · rintro e s' ⟨hb, -⟩
      exact ⟨hb, by simp⟩
    · rintro d' s' ⟨hb, hd'⟩
      exact ih hb (hd' d' rfl).1 (hd' d' rfl).2

theorem own_advances {b : Blueprint} {ps : List Property} {extra : Option ApiType}
    {s₁ s₂ : ResolverState}
    (hps : (properties self b.initializedIsOptional b.members).runFrom s = some (.ok ps, s₁))
    (hextra : (additional self b.index).runFrom s₁ = some (.ok extra, s₂)) :
    Advances true s s₂ := by
  obtain ⟨hadv, -⟩ := properties_yields advances_invariant hself _ _ _ _ _ hps
  obtain ⟨hadv', -⟩ := additional_yields advances_invariant hself _ _ _ _ hextra
  exact advances_invariant.trans hadv hadv'

theorem build_building (b : Blueprint) (h : s₀.table.contains key = false) :
    (b.build self key).Ends (s₀.opened key) fun r s' => Building r.isOk s₀ key s' ∧
      ∀ d', r = .ok d' → d'.name = key ∧ (s₀.WellFormed → KnownDefinition s' d') := by
  refine Ends.bind (properties_yields advances_invariant hself _ _ _) ?_ ?_
  · rintro e s₁ ⟨hadv, -⟩
    exact ⟨(Building.opened h).advance hadv, by simp⟩
  · rintro own s₁ ⟨hadv, hown⟩
    -- The placeholder is older than these calls, so they leave it alone.
    have h₁ := (Building.opened h).advance hadv
    refine Ends.bind (additional_yields advances_invariant hself _ _) ?_ ?_
    · rintro e s₂ ⟨hadv', -⟩
      exact ⟨h₁.advance hadv', by simp⟩
    · rintro index s₂ ⟨hadv', hindex⟩
      refine inheritAll_building hself _ (h₁.advance hadv') rfl fun _ name hmention => ?_
      rcases hmention with ⟨q, hq, hname⟩ | ⟨t, ht, hname⟩
      · exact hadv'.grows.contains (hown own rfl q hq name hname)
      · exact hindex index rfl t ht name hname

theorem reference_advances (b : Blueprint) (key : String) (s : ResolverState) :
    Yields Advances (reference key (b.build self)) s Known := by
  intro r s' hrun
  cases hkey : s.table.contains key with
  | true =>
    rw [reference_known hkey] at hrun
    obtain ⟨rfl, rfl⟩ : .ok (.refObject key) = r ∧ (if _ then s.linked key else s) = s' := by
      simpa using hrun
    have hknown : Known s (.refObject key) := fun name hname => by
      obtain rfl : key = name := by simpa [ApiType.mentioned?, ApiType.refName?] using hname
      exact hkey
    have hlinked : Advances true s (s.linked key) :=
      ⟨(Grows.refl s).linked key, rfl, fun hs => hs.linked hkey, fun _ _ h => h⟩
    split
    · refine ⟨hlinked, ?_⟩
      rintro _ ⟨⟩
      exact advances_invariant.keeps hlinked hknown
    · refine ⟨advances_invariant.refl _ _, ?_⟩
      rintro _ ⟨⟩
      exact hknown
  | false =>
    rw [reference_new hkey] at hrun
    split at hrun
    · cases hrun
    · next d s₁ hbuild =>
      obtain ⟨rfl, rfl⟩ : .ok (.refObject key) = r ∧ s₁.closed d = s' := by simpa using hrun
      obtain ⟨hb, hd⟩ := build_building hself b hkey _ _ hbuild
      obtain ⟨hname, hknown⟩ := hd d rfl
      refine ⟨hb.closed hname hknown, ?_⟩
      rintro _ ⟨⟩ other hother
      obtain rfl : key = other := by simpa [ApiType.mentioned?, ApiType.refName?] using hother
      rw [ReferenceTable.contains_iff, ← hname, slot?_closed]
      rfl
    · next e s₁ hbuild =>
      obtain ⟨rfl, rfl⟩ : .error e = r ∧ s₁.abandoned = s' := by simpa using hrun
      obtain ⟨hb, -⟩ := build_building hself b hkey _ _ hbuild
      exact ⟨hb.abandoned, by simp⟩

end Build

theorem registered_advances (d : EnumDefinition) (s : ResolverState) :
    Yields Advances (Plan.registered d) s Known := by
  intro r s' hrun
  rw [registered_run] at hrun
  obtain ⟨rfl, rfl⟩ : .ok (.refEnum d.name) = r ∧
      (if s.table.contains d.name then s else s.enrolled d) = s' := by simpa using hrun
  have hmention : ∀ name, (ApiType.refEnum d.name).mentioned? = some name → d.name = name := by
    intro name hname
    simpa [ApiType.mentioned?, ApiType.refName?] using hname
  split
  · next hname =>
    refine ⟨advances_invariant.refl _ _, ?_⟩
    rintro _ ⟨⟩ name hmem
    rw [← hmention name hmem]
    exact hname
  · next hname =>
    have hname : s.table.contains d.name = false := by simpa using hname
    refine ⟨⟨(Grows.refl s).filled (d := .enum d) hname, rfl, fun hs => hs.enrolled hname, ?_⟩, ?_⟩
    · intro _ name hpending
      rw [ReferenceTable.isPending_iff, ResolverState.enrolled, ReferenceTable.slot?_fill]
        at hpending
      split at hpending
      · cases hpending
      · exact ReferenceTable.isPending_iff.mpr hpending
    · rintro _ ⟨⟩ name hmem
      rw [← hmention name hmem, ReferenceTable.contains_iff, slot?_enrolled]
      rfl

/-! ## Calls -/

theorem numberType_mentioned? (hints : FormatHints) : hints.numberType.mentioned? = none := by
  unfold FormatHints.numberType
  split <;> rfl

theorem dateType_mentioned? (hints : FormatHints) : hints.dateType.mentioned? = none := by
  unfold FormatHints.dateType
  split <;> rfl

theorem keywordType_mentioned? {k : Keyword} {ctx : ResolveContext} {t : ApiType}
    (h : keywordType k ctx = .ok t) : t.mentioned? = none := by
  cases k <;> simp only [keywordType, Except.ok.injEq, reduceCtorEq] at h <;> subst h
  case number => exact numberType_mentioned? _
  all_goals rfl

theorem builtin?_mentioned? {name : String} {arguments : List TypeNode} {ctx : ResolveContext}
    {t : ApiType} (h : builtin? name arguments ctx = some (.known t)) : t.mentioned? = none := by
  unfold builtin? at h
  split at h <;> simp only [Option.some.injEq, Builtin.known.injEq, reduceCtorEq] at h <;> subst h
  case h_2 => exact numberType_mentioned? _
  case h_4 => exact dateType_mentioned? _
  all_goals rfl

theorem ofUnion_mentioned? {members : List TypeNode} {t : ApiType}
    (h : Plan.ofUnion members = .answer (.ok t)) : t.mentioned? = none := by
  unfold Plan.ofUnion at h
  split at h
  · cases h
  · cases h
  · split at h <;> cases h <;> rfl

theorem ofDeclaration_mentioned? {arguments : List TypeNode} {ctx : ResolveContext}
    {d : Declaration} {t : ApiType} (h : Plan.ofDeclaration arguments ctx d = .answer (.ok t)) :
    t.mentioned? = none := by
  cases d with
  | ofEnum decl =>
    simp only [Plan.ofDeclaration] at h
    split at h
    · split at h <;> cases h
      rfl
    · cases h
  | ofAlias decl =>
    simp only [Plan.ofDeclaration, Plan.ofInstance] at h
    split at h
    · split at h <;> cases h
    · cases h
  | _ =>
    simp only [Plan.ofDeclaration, Plan.ofInstance] at h
    split at h <;> cases h

theorem plan_mentioned? {p : Program} {node : TypeNode} {ctx : ResolveContext} {t : ApiType}
    (h : plan p node ctx = .answer (.ok t)) : t.mentioned? = none := by
  cases node with
  | keyword k => exact keywordType_mentioned? (by simpa [plan] using h)
  | union members => exact ofUnion_mentioned? h
  | literal l =>
    simp only [plan, Plan.answer.injEq, Except.ok.injEq] at h
    subst h
    split
    · rfl
    · cases l <;> rfl
  | object members index =>
    simp only [plan, Plan.answer.injEq, Except.ok.injEq] at h
    subst h
    rfl
  | reference name arguments =>
    simp only [plan, Plan.ofName] at h
    split at h
    · next hbuiltin =>
      cases h
      exact builtin?_mentioned? hbuiltin
    · cases h
    · cases h
    · split at h
      · exact ofDeclaration_mentioned? h
      · cases h
  | _ => simp [plan] at h

theorem run_advances {self : Recursor} (hself : self.Meets Advances Known) (p : Program)
    (node : TypeNode) (ctx : ResolveContext) (s : ResolverState) :
    Yields Advances ((plan p node ctx).run self ctx) s Known := by
  cases hplan : plan p node ctx with
  | answer o =>
    refine yields_ofOutcome advances_invariant.toSequential fun t ht name hname => ?_
    subst ht
    rw [plan_mentioned? hplan] at hname
    cases hname
  | same node' => exact hself node' ctx s
  | list node' =>
    refine (hself node' ctx s).bind advances_invariant.toSequential fun t s' _ ht => ?_
    exact yields_pure advances_invariant.toSequential ht
  | register d => exact registered_advances d s
  | define key b => exact reference_advances hself b key s

theorem resolve_advances (p : Program) (depth : Nat) : (resolve p depth).Meets Advances Known :=
  resolve_ends (fun _ hself node ctx s => run_advances hself p node ctx s) depth

end Resolver
end DecoratedApi
