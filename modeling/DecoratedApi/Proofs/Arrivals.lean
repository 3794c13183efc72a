import DecoratedApi.Proofs.Finish

/-!
# What reaches a definition

A definition covers another when it lists all its property names, and has additional properties if
the other has them. Taking over a base is a least upper bound for this order. So what an entry
covers in the end is known from what it was and from what arrived while the deferred work was done.
-/

namespace DecoratedApi

namespace ObjectDefinition

variable {b c d : ObjectDefinition} {name : String}

/-- All property names of `b` occur in `c`, and additional properties are allowed if they are
in `b`. -/
def Covers (c b : ObjectDefinition) : Prop :=
  (∀ name, b.declares name = true → c.declares name = true) ∧
    (b.additional.isSome = true → c.additional.isSome = true)

theorem declares_iff : d.declares name = true ↔ ∃ q ∈ d.properties, q.name = name := by
  simp [declares]

theorem exists_mem_addMissing {ps : List Property} {p : Property} :
    (∃ q ∈ addMissing ps p, q.name = name) ↔ (∃ q ∈ ps, q.name = name) ∨ p.name = name := by
  unfold addMissing
  split
  · next h =>
    obtain ⟨q, hq, hname⟩ := List.any_eq_true.mp h
    constructor
    · exact .inl
    · rintro (h | rfl)
      · exact h
      · exact ⟨q, hq, by simpa using hname⟩
  · simp only [List.mem_append, List.mem_singleton, or_and_right, exists_or, exists_eq_left]

theorem exists_mem_foldl_addMissing {bs ps : List Property} :
    (∃ q ∈ bs.foldl addMissing ps, q.name = name) ↔
      (∃ q ∈ ps, q.name = name) ∨ ∃ q ∈ bs, q.name = name := by
  induction bs generalizing ps with
  | nil => simp
  | cons p rest ih =>
    rw [List.foldl_cons, ih, exists_mem_addMissing, or_assoc]
    simp

theorem declares_inherit :
    (d.inherit b).declares name = true ↔ d.declares name = true ∨ b.declares name = true := by
  simp only [declares_iff]
  exact exists_mem_foldl_addMissing

theorem additional_inherit :
    (d.inherit b).additional.isSome = true ↔
      d.additional.isSome = true ∨ b.additional.isSome = true := by
  unfold inherit
  cases d.additional <;> simp

namespace Covers

theorem refl (d : ObjectDefinition) : d.Covers d := ⟨fun _ h => h, id⟩

theorem trans (h : c.Covers d) (h' : d.Covers b) : c.Covers b :=
  ⟨fun name hname => h.1 name (h'.1 name hname), fun hadd => h.2 (h'.2 hadd)⟩

end Covers

theorem covers_inherit_iff : c.Covers (d.inherit b) ↔ c.Covers d ∧ c.Covers b := by
  simp only [Covers, declares_inherit, additional_inherit, or_imp, forall_and]
  constructor
  · rintro ⟨⟨hd, hb⟩, had, hab⟩
    exact ⟨⟨hd, had⟩, hb, hab⟩
  · rintro ⟨⟨hd, had⟩, hb, hab⟩
    exact ⟨⟨hd, hb⟩, had, hab⟩

theorem covers_foldl_inherit_iff {bs : List ObjectDefinition} :
    c.Covers (bs.foldl inherit d) ↔ c.Covers d ∧ ∀ y ∈ bs, c.Covers y := by
  induction bs generalizing d with
  | nil => simp
  | cons b rest ih =>
    rw [List.foldl_cons, ih, covers_inherit_iff, and_assoc]
    simp

theorem inherit_covers_left : (d.inherit b).Covers d := (covers_inherit_iff.mp (.refl _)).1

theorem inherit_covers_right : (d.inherit b).Covers b := (covers_inherit_iff.mp (.refl _)).2

end ObjectDefinition

namespace Deferred

/-- The definitions that the entry takes over while the work is done, in order. -/
def arrivals (name : String) : ReferenceTable → List Deferred → List ObjectDefinition
  | _, [] => []
  | t, d :: rest =>
    match d.run t with
    | .error _ => []
    | .ok t' =>
      match d with
      | .link _ _ => arrivals name t' rest
      | .inherit target base =>
        if target = name then (t.object? base).toList ++ arrivals name t' rest
        else arrivals name t' rest

/-- The definitions that `base` takes over after `target` has taken over `base`. -/
def lateArrivals (target base : String) : ReferenceTable → List Deferred → List ObjectDefinition
  | _, [] => []
  | t, d :: rest =>
    match d.run t with
    | .error _ => []
    | .ok t' =>
      if d = .inherit target base then arrivals base t' rest else lateArrivals target base t' rest

variable {t t' : ReferenceTable} {queue : List Deferred} {name target base : String}

theorem runAll_object? {o : ObjectDefinition} (h : runAll t queue = .ok t')
    (ho : t.object? name = some o) :
    t'.object? name = some ((arrivals name t queue).foldl .inherit o) := by
  induction queue generalizing t o with
  | nil =>
    cases h
    exact ho
  | cons d rest ih =>
    obtain ⟨t₁, hrun, hrest⟩ := runAll_cons_ok.mp h
    obtain ⟨n, referrer, rfl, rfl⟩ | ⟨target, base, d, b, rfl, hd, hb, hentries⟩ := run_cases hrun
    · simpa [arrivals, hrun] using ih hrest ho
    · have hslot := run_slot? hentries name
      by_cases htarget : target = name
      · subst htarget
        obtain rfl : d = o := Option.some.inj (hd.symm.trans ho)
        rw [if_pos rfl, ← ReferenceTable.object?_eq_some_iff] at hslot
        simpa [arrivals, hrun, hb] using ih hrest hslot
      · rw [if_neg (Ne.symm htarget)] at hslot
        have ho₁ : t₁.object? name = some o := by
          rw [ReferenceTable.object?_eq_some_iff, hslot, ReferenceTable.object?_eq_some_iff.mp ho]
        simpa [arrivals, hrun, htarget] using ih hrest ho₁

/-- In the end an entry is the least definition that covers what it was and what arrived. -/
theorem covers_final_iff {o : ObjectDefinition} (h : runAll t queue = .ok t')
    (ho : t.object? name = some o) :
    ∃ o', t'.object? name = some o' ∧
      ∀ c : ObjectDefinition, c.Covers o' ↔ c.Covers o ∧ ∀ y ∈ arrivals name t queue, c.Covers y :=
  ⟨_, runAll_object? h ho, fun _ => ObjectDefinition.covers_foldl_inherit_iff⟩

theorem covers_base_iff (h : runAll t queue = .ok t') (hmem : .inherit target base ∈ queue) :
    ∃ c b, t'.object? target = some c ∧ t'.object? base = some b ∧
      (c.Covers b ↔ ∀ y ∈ lateArrivals target base t queue, c.Covers y) := by
  induction queue generalizing t with
  | nil => simp at hmem
  | cons d rest ih =>
    obtain ⟨t₁, hrun, hrest⟩ := runAll_cons_ok.mp h
    by_cases hd : d = .inherit target base
    · subst hd
      obtain ⟨_, _, hno, -⟩ | ⟨_, _, o, b₀, heq, ho, hb₀, hentries⟩ := run_cases hrun
      · cases hno
      cases heq
      -- What the base is right after the copy is covered by what the target is then.
      have ho₁ : t₁.object? target = some (o.inherit b₀) := by
        rw [ReferenceTable.object?_eq_some_iff, run_slot? hentries, if_pos rfl]
      obtain ⟨b₁, hb₁, hcov₁⟩ : ∃ b₁, t₁.object? base = some b₁ ∧ (o.inherit b₀).Covers b₁ := by
        by_cases hself : base = target
        · exact ⟨_, by rw [hself, ho₁], .refl _⟩
        · refine ⟨b₀, ?_, ObjectDefinition.inherit_covers_right⟩
          rw [ReferenceTable.object?_eq_some_iff, run_slot? hentries, if_neg hself]
          exact ReferenceTable.object?_eq_some_iff.mp hb₀
      obtain ⟨c, hc, hcovers⟩ := covers_final_iff hrest ho₁
      obtain ⟨b, hb, hcoversBase⟩ := covers_final_iff hrest hb₁
      have hlate : lateArrivals target base t (.inherit target base :: rest) =
          arrivals base t₁ rest := by simp [lateArrivals, hrun]
      refine ⟨c, b, hc, hb, ?_⟩
      rw [hcoversBase c, hlate]
      exact and_iff_right ((((hcovers c).mp (.refl c)).1).trans hcov₁)
    · have hmem' : .inherit target base ∈ rest := by
        rcases List.mem_cons.mp hmem with he | hmem'
        · exact absurd he.symm hd
        · exact hmem'
      simpa [lateArrivals, hrun, hd] using ih hrest hmem'

theorem arrivals_eq_nil (h : ∀ x, .inherit name x ∉ queue) : arrivals name t queue = [] := by
  induction queue generalizing t with
  | nil => rfl
  | cons d rest ih =>
    have hrest : ∀ x, .inherit name x ∉ rest := fun x hx => h x (List.mem_cons_of_mem _ hx)
    rw [arrivals]
    split
    · rfl
    · split
      · exact ih hrest
      · next target base _ =>
        split
        · next he =>
          subst he
          exact absurd List.mem_cons_self (h base)
        · exact ih hrest

/-- No work into the base is queued behind the copy from it. -/
def BaseFirst (target base : String) (queue : List Deferred) : Prop :=
  ∀ before after, queue = before ++ .inherit target base :: after → ∀ x, .inherit base x ∉ after

theorem BaseFirst.of_notMem (h : ∀ x, .inherit base x ∉ queue) : BaseFirst target base queue := by
  intro before after heq x hx
  apply h x
  rw [heq]
  exact List.mem_append_right _ (List.mem_cons_of_mem _ hx)

theorem lateArrivals_eq_nil (h : BaseFirst target base queue) :
    lateArrivals target base t queue = [] := by
  induction queue generalizing t with
  | nil => rfl
  | cons d rest ih =>
    rw [lateArrivals]
    split
    · rfl
    · split
      · next hd => exact arrivals_eq_nil (h [] rest (by rw [hd]; rfl))
      · exact ih fun before after heq => h (d :: before) after (by rw [heq]; rfl)

end Deferred
end DecoratedApi
