import DecoratedApi.Proofs.Advance

/-!
# The deferred work

Deferred work keeps the kind of every entry: a placeholder stays one, an enum is not touched, and an
object stays an object. On a well-formed state all of it can be done exactly when no placeholder is
left, so `finish` fails for no other reason.
-/

namespace DecoratedApi

/-! ## Lists of definitions -/

namespace ReferenceTable

variable {t t' : ReferenceTable} {name : String}

theorem definitionsOf_eq_ok {entries : List (String × Slot)} {defs : OrderedMap Definition} :
    definitionsOf entries = .ok defs ↔ entries = defs.map fun (k, d) => (k, .ready d) := by
  induction entries generalizing defs with
  | nil =>
    simp only [definitionsOf, Except.ok.injEq]
    constructor
    · rintro rfl
      rfl
    · intro h
      exact (List.map_eq_nil_iff.mp h.symm).symm
  | cons e rest ih =>
    obtain ⟨k, slot⟩ := e
    cases slot with
    | pending =>
      simp only [definitionsOf, reduceCtorEq, false_iff]
      intro h
      cases defs <;> simp at h
    | ready d =>
      cases hrest : definitionsOf rest with
      | error e =>
        simp only [definitionsOf, hrest, bind, Except.bind, reduceCtorEq, false_iff]
        intro h
        cases defs with
        | nil => simp at h
        | cons e' defs' =>
          have hno : definitionsOf rest = .ok defs' := ih.mpr (List.cons.inj h).2
          rw [hrest] at hno
          cases hno
      | ok defs' =>
        have hdefs' := ih.mp hrest
        simp only [definitionsOf, hrest, bind, Except.bind, Except.ok.injEq]
        constructor
        · rintro rfl
          simp [hdefs']
        · intro h
          cases defs with
          | nil => simp at h
          | cons e'' defs'' =>
            obtain ⟨hhead, htail⟩ := List.cons.inj h
            obtain ⟨rfl, rfl⟩ : k = e''.1 ∧ d = e''.2 := by simpa using hhead
            have hok := ih.mpr htail
            rw [hrest] at hok
            cases hok
            rfl

theorem find?_definitions {defs : OrderedMap Definition} (h : t.definitions = .ok defs)
    (name : String) : OrderedMap.find? name defs = t.get? name := by
  have hentries := definitionsOf_eq_ok.mp h
  rw [get?, hentries]
  clear h hentries
  induction defs with
  | nil => rfl
  | cons e rest ih =>
    obtain ⟨k, d⟩ := e
    by_cases hk : k = name
    · simp [OrderedMap.find?, hk]
    · simpa [OrderedMap.find?, hk] using ih

theorem keys_definitions {defs : OrderedMap Definition} (h : t.definitions = .ok defs) :
    OrderedMap.keys defs = OrderedMap.keys t.entries := by
  rw [definitionsOf_eq_ok.mp h]
  simp [OrderedMap.keys, Function.comp_def]

theorem definitions_isOk_iff (hnodup : (OrderedMap.keys t.entries).Nodup) :
    (∃ defs, t.definitions = .ok defs) ↔ ∀ name, t.isPending name = false := by
  constructor
  · rintro ⟨defs, h⟩ name
    by_contra hne
    have hslot := isPending_iff.mp (by simpa using hne)
    have hmem := OrderedMap.mem_of_find?_eq_some hslot
    rw [definitionsOf_eq_ok.mp h] at hmem
    simp at hmem
  · intro h
    unfold definitions
    have hready : ∀ e ∈ t.entries, ∃ d, e.2 = .ready d := by
      rintro ⟨k, slot⟩ hmem
      cases slot with
      | ready d => exact ⟨d, rfl⟩
      | pending =>
        have hpending := isPending_iff.mpr (OrderedMap.find?_eq_some_of_mem hnodup hmem)
        rw [h k] at hpending
        cases hpending
    generalize t.entries = entries at hready
    induction entries with
    | nil => exact ⟨[], rfl⟩
    | cons e rest ih =>
      obtain ⟨k, slot⟩ := e
      obtain ⟨d, rfl⟩ := hready (k, slot) List.mem_cons_self
      obtain ⟨defs, hdefs⟩ := ih fun e' he' => hready e' (List.mem_cons_of_mem _ he')
      exact ⟨(k, d) :: defs, by simp [definitionsOf, hdefs, bind, Except.bind]⟩

end ReferenceTable

/-! ## One piece of work -/

namespace Deferred

variable {t t' : ReferenceTable} {name : String}

theorem run_cases {d : Deferred} (h : d.run t = .ok t') :
    (∃ name referrer, d = .link name referrer ∧ t' = t) ∨
      ∃ target base o b, d = .inherit target base ∧ t.object? target = some o ∧
        t.object? base = some b ∧
        t'.entries = OrderedMap.set target (.ready (.object (o.inherit b))) t.entries := by
  cases d with
  | link name referrer =>
    simp only [run] at h
    split at h
    · cases h
      exact .inl ⟨name, referrer, rfl, rfl⟩
    · cases h
  | inherit target base =>
    simp only [run] at h
    split at h
    · cases h
    · next b hb =>
      split at h
      · cases h
      · next o ho =>
        cases h
        exact .inr ⟨target, base, o, b, rfl, ho, hb, by simp⟩

theorem run_slot? {target : String} {o b : ObjectDefinition}
    (hentries : t'.entries = OrderedMap.set target (.ready (.object (o.inherit b))) t.entries)
    (name : String) :
    t'.slot? name =
      if name = target then some (.ready (.object (o.inherit b))) else t.slot? name := by
  rw [ReferenceTable.slot?, hentries, OrderedMap.find?_set]
  rfl

/-- The kind of every entry is kept. -/
structure SameKinds (t t' : ReferenceTable) : Prop where
  keys : OrderedMap.keys t'.entries = OrderedMap.keys t.entries
  pending : ∀ name, t'.slot? name = some .pending ↔ t.slot? name = some .pending
  object : ∀ name o, t.slot? name = some (.ready (.object o)) →
    ∃ o', t'.slot? name = some (.ready (.object o'))
  enum : ∀ name d, t.slot? name = some (.ready (.enum d)) → t'.slot? name = some (.ready (.enum d))

namespace SameKinds

theorem refl (t : ReferenceTable) : SameKinds t t :=
  ⟨rfl, fun _ => Iff.rfl, fun _ o h => ⟨o, h⟩, fun _ _ h => h⟩

theorem trans {t'' : ReferenceTable} (h : SameKinds t t') (h' : SameKinds t' t'') :
    SameKinds t t'' where
  keys := h'.keys.trans h.keys
  pending := fun name => (h'.pending name).trans (h.pending name)
  object := fun name o ho => by
    obtain ⟨o', ho'⟩ := h.object name o ho
    exact h'.object name o' ho'
  enum := fun name d hd => h'.enum name d (h.enum name d hd)

theorem contains (h : SameKinds t t') : t'.contains name = t.contains name := by
  rw [Bool.eq_iff_iff, ReferenceTable.contains_iff_mem, ReferenceTable.contains_iff_mem, h.keys]

theorem isPending (h : SameKinds t t') : t'.isPending name = t.isPending name := by
  rw [Bool.eq_iff_iff, ReferenceTable.isPending_iff, ReferenceTable.isPending_iff, h.pending]

theorem holdsObject (h : SameKinds t t') (hname : t.HoldsObject name) : t'.HoldsObject name := by
  rcases hname with hname | ⟨o, hname⟩
  · exact .inl ((h.pending name).mpr hname)
  · exact .inr (h.object name o hname)

end SameKinds

theorem run_sameKinds {d : Deferred} (h : d.run t = .ok t') : SameKinds t t' := by
  obtain ⟨name, referrer, rfl, rfl⟩ | ⟨target, base, o, b, rfl, ho, -, hentries⟩ := run_cases h
  · exact .refl t'
  · rw [ReferenceTable.object?_eq_some_iff] at ho
    have hmem : target ∈ OrderedMap.keys t.entries := by
      rw [← ReferenceTable.contains_iff_mem, ReferenceTable.contains_iff, ho]
      rfl
    refine ⟨by rw [hentries, OrderedMap.keys_set_of_mem hmem], fun name => ?_, fun name o' ho' => ?_,
      fun name d hd => ?_⟩
    all_goals rw [run_slot? hentries]
    all_goals split
    · next he => simp [he, ho]
    · rfl
    · exact ⟨_, rfl⟩
    · exact ⟨o', ho'⟩
    · next he =>
      rw [he, ho] at hd
      cases hd
    · exact hd

theorem run_wellFormed {d : Deferred} (h : d.run t = .ok t') (ht : t.WellFormed) :
    t'.WellFormed := by
  have hkinds := run_sameKinds h
  obtain ⟨name, referrer, rfl, rfl⟩ | ⟨target, base, o, b, rfl, ho, hb, hentries⟩ := run_cases h
  · exact ht
  · rw [ReferenceTable.object?_eq_some_iff] at ho hb
    refine ⟨by rw [hkinds.keys]; exact ht.nodup, fun name d hslot => ?_, fun name d hslot n hn => ?_⟩
    all_goals rw [run_slot? hentries] at hslot
    all_goals split at hslot
    · next he =>
      cases hslot
      rw [he]
      exact ht.named target (.object o) ho
    · exact ht.named name d hslot
    · cases hslot
      rw [hkinds.contains]
      obtain ⟨o', ho', hmention⟩ := hn
      cases ho'
      rcases hmention.of_inherit with hmention | hmention
      · exact ht.closed target _ ho n ⟨o, rfl, hmention⟩
      · exact ht.closed base _ hb n ⟨b, rfl, hmention⟩
    · rw [hkinds.contains]
      exact ht.closed name d hslot n hn

/-! ## All the work -/

theorem runAll_cons_ok {d : Deferred} {rest : List Deferred} :
    runAll t (d :: rest) = .ok t' ↔ ∃ t₁, d.run t = .ok t₁ ∧ runAll t₁ rest = .ok t' := by
  simp only [runAll, bind, Except.bind]
  cases d.run t <;> simp

theorem runAll_sameKinds {queue : List Deferred} (h : runAll t queue = .ok t') :
    SameKinds t t' := by
  induction queue generalizing t with
  | nil =>
    cases h
    exact .refl _
  | cons d rest ih =>
    obtain ⟨t₁, hrun, hrest⟩ := runAll_cons_ok.mp h
    exact (run_sameKinds hrun).trans (ih hrest)

theorem runAll_wellFormed {queue : List Deferred} (h : runAll t queue = .ok t')
    (ht : t.WellFormed) : t'.WellFormed := by
  induction queue generalizing t with
  | nil =>
    cases h
    exact ht
  | cons d rest ih =>
    obtain ⟨t₁, hrun, hrest⟩ := runAll_cons_ok.mp h
    exact ih hrest (run_wellFormed hrun ht)

theorem runAll_slot? {queue : List Deferred} (h : runAll t queue = .ok t')
    (hname : ∀ x, .inherit name x ∉ queue) : t'.slot? name = t.slot? name := by
  induction queue generalizing t with
  | nil =>
    cases h
    rfl
  | cons d rest ih =>
    obtain ⟨t₁, hrun, hrest⟩ := runAll_cons_ok.mp h
    rw [ih hrest fun x hx => hname x (List.mem_cons_of_mem _ hx)]
    obtain ⟨n, referrer, rfl, rfl⟩ | ⟨target, base, o, b, rfl, -, -, hentries⟩ := run_cases hrun
    · rfl
    · have hne : name ≠ target := by
        rintro rfl
        exact hname base List.mem_cons_self
      rw [run_slot? hentries, if_neg hne]

/-- Work on entries that are there, and that are objects where their properties are needed. -/
def Possible (t : ReferenceTable) : Deferred → Prop
  | .link name _ => t.contains name = true
  | .inherit target base => t.HoldsObject target ∧ t.HoldsObject base

theorem Possible.mono {d : Deferred} (h : SameKinds t t') (hd : Possible t d) : Possible t' d := by
  cases d with
  | link name referrer => exact h.contains.trans hd
  | inherit target base => exact ⟨h.holdsObject hd.1, h.holdsObject hd.2⟩

theorem object?_of_holdsObject (h : t.HoldsObject name) (hpending : t.isPending name = false) :
    ∃ o, t.object? name = some o := by
  rcases h with h | ⟨o, h⟩
  · rw [ReferenceTable.isPending_iff.mpr h] at hpending
    cases hpending
  · exact ⟨o, ReferenceTable.object?_eq_some_iff.mpr h⟩

theorem run_isOk {d : Deferred} (h : Possible t d) (hpending : ∀ name, t.isPending name = false) :
    ∃ t', d.run t = .ok t' := by
  cases d with
  | link name referrer =>
    obtain ⟨d, hslot⟩ := ReferenceTable.exists_ready h (hpending name)
    exact ⟨t, by simp [run, ReferenceTable.get?_eq_some_iff.mpr hslot]⟩
  | inherit target base =>
    obtain ⟨o, ho⟩ := object?_of_holdsObject h.1 (hpending target)
    obtain ⟨b, hb⟩ := object?_of_holdsObject h.2 (hpending base)
    simp [run, ho, hb]

theorem runAll_isOk {queue : List Deferred} (h : ∀ d ∈ queue, Possible t d)
    (hpending : ∀ name, t.isPending name = false) : ∃ t', runAll t queue = .ok t' := by
  induction queue generalizing t with
  | nil => exact ⟨t, rfl⟩
  | cons d rest ih =>
    obtain ⟨t₁, hrun⟩ := run_isOk (h d List.mem_cons_self) hpending
    have hkinds := run_sameKinds hrun
    obtain ⟨t', hrest⟩ := ih
      (fun d' hd' => (h d' (List.mem_cons_of_mem _ hd')).mono hkinds)
      (fun name => by rw [hkinds.isPending, hpending name])
    exact ⟨t', runAll_cons_ok.mpr ⟨t₁, hrun, hrest⟩⟩

end Deferred

namespace Resolver

theorem finish_ok {s : ResolverState} {defs : OrderedMap Definition} :
    finish s = .ok defs ↔
      ∃ t, Deferred.runAll s.table s.deferred = .ok t ∧ t.definitions = .ok defs := by
  simp only [finish, bind, Except.bind]
  cases Deferred.runAll s.table s.deferred <;> simp

theorem possible_of_wellFormed {s : ResolverState} (hs : s.WellFormed) :
    ∀ d ∈ s.deferred, Deferred.Possible s.table d := by
  intro d hd
  cases d with
  | link name referrer => exact hs.links name referrer hd
  | inherit target base =>
    obtain ⟨htarget, hbase, -⟩ := hs.inherits target base hd
    exact ⟨htarget, hbase⟩

theorem finish_isOk_iff {s : ResolverState} (hs : s.WellFormed) :
    (∃ defs, finish s = .ok defs) ↔ ∀ name, s.table.isPending name = false := by
  constructor
  · rintro ⟨defs, h⟩ name
    obtain ⟨t, hrun, hdefs⟩ := finish_ok.mp h
    have ht := Deferred.runAll_wellFormed hrun hs.table
    rw [← (Deferred.runAll_sameKinds hrun).isPending]
    exact (ReferenceTable.definitions_isOk_iff ht.nodup).mp ⟨defs, hdefs⟩ name
  · intro h
    obtain ⟨t, hrun⟩ := Deferred.runAll_isOk (possible_of_wellFormed hs) h
    have ht := Deferred.runAll_wellFormed hrun hs.table
    obtain ⟨defs, hdefs⟩ := (ReferenceTable.definitions_isOk_iff ht.nodup).mpr fun name => by
      rw [(Deferred.runAll_sameKinds hrun).isPending, h name]
    exact ⟨defs, finish_ok.mpr ⟨t, hrun, hdefs⟩⟩

end Resolver
end DecoratedApi
