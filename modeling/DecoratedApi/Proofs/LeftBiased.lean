import DecoratedApi.Proofs.OwnNames

/-!
# Taking over as a union

A definition that takes over another one keeps what it has, and gains the first property under each
name that it lacks, in the order of the other one. This says exactly which properties are gained, also
where names are repeated. Taking over twice changes nothing more, and a base may be taken over with
its own bases in it or before them (`taking_over_is_a_left_biased_union`).
-/

namespace DecoratedApi

namespace Property

variable {seen : List String} {q : Property} {qs own base added added' : List Property}

/-- The properties of `base` that `own` lacks: one for each name that only `base` has, the first of
that name, in the order of the first ones. -/
structure Lacking (own base added : List Property) : Prop where
  names : ∀ name, name ∈ added.map (·.name) ↔
    name ∈ base.map (·.name) ∧ name ∉ own.map (·.name)
  once : (added.map (·.name)).Nodup
  first : ∀ q ∈ added, base.find? (·.name == q.name) = some q
  order : added.Pairwise fun q q' =>
    (base.map (·.name)).idxOf q.name < (base.map (·.name)).idxOf q'.name

/-! ## What has not come before -/

theorem mem_names_unseen {name : String} :
    name ∈ (unseen seen qs).map (·.name) ↔ name ∈ qs.map (·.name) ∧ name ∉ seen := by
  induction qs generalizing seen with
  | nil => simp [unseen]
  | cons q rest ih =>
    rw [unseen]
    split
    · next hseen =>
      rw [ih, List.map_cons, List.mem_cons]
      constructor
      · rintro ⟨hname, hnew⟩
        exact ⟨.inr hname, hnew⟩
      · rintro ⟨rfl | hname, hnew⟩
        · exact absurd hseen hnew
        · exact ⟨hname, hnew⟩
    · next hnew =>
      simp only [List.map_cons, List.mem_cons, ih, List.mem_append]
      constructor
      · rintro (rfl | ⟨hname, hother⟩)
        · exact ⟨.inl rfl, hnew⟩
        · exact ⟨.inr hname, fun hseen => hother (.inl hseen)⟩
      · rintro ⟨hname, hother⟩
        by_cases heq : name = q.name
        · exact .inl heq
        · exact .inr ⟨hname.resolve_left heq, by simp [hother, heq]⟩

theorem ne_of_mem_unseen {name : String} (h : q ∈ unseen seen qs) (hname : name ∈ seen) :
    name ≠ q.name := by
  rintro rfl
  exact (mem_names_unseen.mp (List.mem_map_of_mem (f := (·.name)) h)).2 hname

theorem find?_of_mem_unseen (h : q ∈ unseen seen qs) : qs.find? (·.name == q.name) = some q := by
  induction qs generalizing seen with
  | nil => simp [unseen] at h
  | cons x rest ih =>
    rw [unseen] at h
    split at h
    · next hx => simp [ne_of_mem_unseen h hx, ih h]
    · rcases List.mem_cons.mp h with rfl | h
      · simp
      · have hne : x.name ≠ q.name := ne_of_mem_unseen h (by simp)
        simp [hne, ih h]

theorem pairwise_idxOf_cons {x : Property} {rest : List Property}
    (hne : ∀ q ∈ added, x.name ≠ q.name)
    (h : added.Pairwise fun q q' =>
      (rest.map (·.name)).idxOf q.name < (rest.map (·.name)).idxOf q'.name) :
    added.Pairwise fun q q' =>
      ((x :: rest).map (·.name)).idxOf q.name < ((x :: rest).map (·.name)).idxOf q'.name := by
  refine h.imp_of_mem fun {q q'} hq hq' hlt => ?_
  rw [List.map_cons, List.idxOf_cons_ne _ (hne q hq), List.idxOf_cons_ne _ (hne q' hq')]
  omega

theorem pairwise_unseen : (unseen seen qs).Pairwise fun q q' =>
    (qs.map (·.name)).idxOf q.name < (qs.map (·.name)).idxOf q'.name := by
  induction qs generalizing seen with
  | nil => simp [unseen]
  | cons x rest ih =>
    rw [unseen]
    split
    · next hx => exact pairwise_idxOf_cons (fun q hq => ne_of_mem_unseen hq hx) ih
    · have hne : ∀ q ∈ unseen (seen ++ [x.name]) rest, x.name ≠ q.name := by
        intro q hq
        exact ne_of_mem_unseen hq (by simp)
      refine List.pairwise_cons.mpr ⟨fun q hq => ?_, pairwise_idxOf_cons hne ih⟩
      rw [List.map_cons, List.idxOf_cons_self, List.idxOf_cons_ne _ (hne q hq)]
      omega

theorem lacking_unseen : Lacking own base (unseen (own.map (·.name)) base) where
  names := fun _ => mem_names_unseen
  once := by
    refine List.pairwise_map.mpr (pairwise_unseen.imp fun {q q'} hlt heq => ?_)
    rw [heq] at hlt
    exact Nat.lt_irrefl _ hlt
  first := fun _ => find?_of_mem_unseen
  order := pairwise_unseen

theorem Lacking.mem_of_mem (h : Lacking own base added) (h' : Lacking own base added')
    (hq : q ∈ added) : q ∈ added' := by
  have hname : q.name ∈ added'.map (·.name) := by
    rw [h'.names, ← h.names]
    exact List.mem_map_of_mem (f := (·.name)) hq
  obtain ⟨q', hq', heq⟩ := List.mem_map.mp hname
  -- Both are the first one of their name in the base.
  have hfirst := h'.first q' hq'
  rw [heq, h.first q hq] at hfirst
  cases hfirst
  exact hq'

theorem Lacking.unique (h : Lacking own base added) (h' : Lacking own base added') :
    added = added' := by
  have hperm : added.Perm added' := by
    apply (List.perm_ext_iff_of_nodup h.once.of_map h'.once.of_map).mpr
    intro q
    exact ⟨h.mem_of_mem h', h'.mem_of_mem h⟩
  refine List.Perm.eq_of_pairwise ?_ h.order h'.order hperm
  intro q q' _ _ hlt hgt
  omega

end Property

namespace ObjectDefinition

variable {ps qs : List Property} {seen : List String}

theorem properties_inherit (d b : ObjectDefinition) :
    (d.inherit b).properties =
      d.properties ++ Property.unseen (d.properties.map (·.name)) b.properties :=
  foldl_addMissing _ _

theorem addMissing_of_mem {q : Property} (h : q.name ∈ ps.map (·.name)) : addMissing ps q = ps := by
  have hany : ps.any (·.name == q.name) = true := by simpa using h
  rw [addMissing, if_pos hany]

theorem mem_names_addMissing {q : Property} {name : String} :
    name ∈ (addMissing ps q).map (·.name) ↔ name ∈ ps.map (·.name) ∨ name = q.name := by
  have h : (∃ x ∈ addMissing ps q, x.name = name) ↔ (∃ x ∈ ps, x.name = name) ∨ q.name = name :=
    exists_mem_addMissing
  simpa [eq_comm] using h

theorem foldl_addMissing_of_subset (h : qs.map (·.name) ⊆ ps.map (·.name)) :
    qs.foldl addMissing ps = ps := by
  induction qs with
  | nil => rfl
  | cons q rest ih =>
    obtain ⟨hq, hrest⟩ := List.cons_subset.mp h
    rw [List.foldl_cons, addMissing_of_mem hq]
    exact ih hrest

theorem foldl_addMissing_unseen (h : seen ⊆ ps.map (·.name)) :
    (Property.unseen seen qs).foldl addMissing ps = qs.foldl addMissing ps := by
  induction qs generalizing seen ps with
  | nil => rfl
  | cons q rest ih =>
    rw [Property.unseen, List.foldl_cons]
    split
    · next hseen =>
      rw [addMissing_of_mem (h hseen)]
      exact ih h
    · rw [List.foldl_cons]
      apply ih
      intro name hname
      rw [mem_names_addMissing]
      rcases List.mem_append.mp hname with hname | hname
      · exact .inl (h hname)
      · exact .inr (List.mem_singleton.mp hname)

theorem names_subset_inherit (d b : ObjectDefinition) :
    b.properties.map (·.name) ⊆ (d.inherit b).properties.map (·.name) := by
  intro name hname
  have hcovers := (inherit_covers_right (d := d) (b := b)).1 name
  simp only [declares_iff] at hcovers
  simpa using hcovers (by simpa using hname)

theorem inherit_inherit_self (d b : ObjectDefinition) : (d.inherit b).inherit b = d.inherit b := by
  have hproperties := foldl_addMissing_of_subset (names_subset_inherit d b)
  have hadditional : ((d.inherit b).additional <|> b.additional) = (d.inherit b).additional := by
    unfold inherit
    cases d.additional <;> cases b.additional <;> rfl
  rw [inherit, hproperties, hadditional]

theorem inherit_assoc (d b c : ObjectDefinition) :
    d.inherit (b.inherit c) = (d.inherit b).inherit c := by
  have hproperties : (b.inherit c).properties.foldl addMissing d.properties =
      c.properties.foldl addMissing (d.inherit b).properties := by
    rw [properties_inherit b c, List.foldl_append]
    exact foldl_addMissing_unseen (names_subset_inherit d b)
  have hadditional : (d.additional <|> (b.inherit c).additional) =
      ((d.inherit b).additional <|> c.additional) := by
    unfold inherit
    cases d.additional <;> cases b.additional <;> rfl
  rw [inherit, hproperties, hadditional]
  rfl

end ObjectDefinition

/-- A definition that takes over a base is called and described as before. Its properties come first,
and what follows is exactly what it lacked; additional properties are those of the base only if it has
none. Taking the base over again changes nothing, and a base that has taken over another one gives
what the two give one after the other. -/
theorem taking_over_is_a_left_biased_union (d b c : ObjectDefinition) :
    ((d.inherit b).name = d.name ∧ (d.inherit b).description = d.description) ∧
    d.properties <+: (d.inherit b).properties ∧
    (∀ added, (d.inherit b).properties = d.properties ++ added ↔
      Property.Lacking d.properties b.properties added) ∧
    (d.inherit b).additional = (d.additional <|> b.additional) ∧
    (d.inherit b).inherit b = d.inherit b ∧
    d.inherit (b.inherit c) = (d.inherit b).inherit c := by
  have hproperties := ObjectDefinition.properties_inherit d b
  refine ⟨⟨rfl, rfl⟩, (ObjectDefinition.GrownFrom.inherit d b).isPrefix, ?_, rfl,
    ObjectDefinition.inherit_inherit_self d b, ObjectDefinition.inherit_assoc d b c⟩
  intro added
  constructor
  · intro h
    rw [hproperties] at h
    rw [← List.append_cancel_left h]
    exact Property.lacking_unseen
  · intro h
    rw [hproperties, h.unique Property.lacking_unseen]

end DecoratedApi
