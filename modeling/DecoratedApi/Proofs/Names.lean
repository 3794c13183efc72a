import DecoratedApi.Proofs.Session

/-!
# Names in a document

Every name that occurs in a metadata document is defined in it, and every definition stands under
its own name.
-/

namespace DecoratedApi

open Resolver

/-- The name occurs in a type of a method, or in a definition. -/
def Metadata.Mentions (m : Metadata) (name : String) : Prop :=
  (∃ c ∈ m.controllers, ∃ t ∈ c.types, t.mentioned? = some name) ∨
    ∃ e ∈ m.definitions, e.2.Mentions name

theorem Resolver.finish_closed {s : ResolverState} {defs : OrderedMap Definition}
    (hs : s.WellFormed) (h : finish s = .ok defs) :
    (OrderedMap.keys defs).Nodup ∧
      (∀ name, s.table.contains name = true → name ∈ OrderedMap.keys defs) ∧
      ∀ key d, (key, d) ∈ defs →
        d.name = key ∧ ∀ name, d.Mentions name → name ∈ OrderedMap.keys defs := by
  obtain ⟨t, hrun, hdefs⟩ := finish_ok.mp h
  have ht := Deferred.runAll_wellFormed hrun hs.table
  have hkeys := ReferenceTable.keys_definitions hdefs
  have hnodup : (OrderedMap.keys defs).Nodup := by
    rw [hkeys]
    exact ht.nodup
  refine ⟨hnodup, fun name hname => ?_, fun key d hmem => ?_⟩
  · rw [hkeys, ← ReferenceTable.contains_iff_mem, (Deferred.runAll_sameKinds hrun).contains]
    exact hname
  · have hfind := OrderedMap.find?_eq_some_of_mem hnodup hmem
    rw [ReferenceTable.find?_definitions hdefs, ReferenceTable.get?_eq_some_iff] at hfind
    refine ⟨ht.named key d hfind, fun name hname => ?_⟩
    rw [hkeys, ← ReferenceTable.contains_iff_mem]
    exact ht.closed key d hfind name hname

/-- Every name that a generated document mentions is defined in it, and each definition stands there
once, under its own name. -/
theorem mentioned_names_are_defined {p : Program} {depth : Nat} {m : Metadata}
    (h : p.metadataAt depth = some (.ok m)) :
    (∀ name, m.Mentions name → name ∈ OrderedMap.keys m.definitions) ∧
      (∀ key d, (key, d) ∈ m.definitions → d.name = key) ∧
      (OrderedMap.keys m.definitions).Nodup := by
  obtain ⟨s, hwalk, hfinish⟩ := Program.metadataAt_ok.mp h
  obtain ⟨hadv, htypes⟩ := Program.generateControllers_advances hwalk
  obtain ⟨hnodup, hkeys, hclosed⟩ := finish_closed (hadv.wellFormed .fresh) hfinish
  refine ⟨?_, fun key d hmem => (hclosed key d hmem).1, hnodup⟩
  rintro name (⟨c, hc, t, ht, hname⟩ | ⟨⟨key, d⟩, hmem, hname⟩)
  · exact hkeys name (htypes c hc t ht name hname)
  · exact (hclosed key d hmem).2 name hname

theorem trees_names_are_defined :
    ∃ m, Program.trees.metadataAt 20 = some (.ok m) ∧ m.Mentions "State" ∧
      "State" ∈ OrderedMap.keys m.definitions := by
  have hgen : Program.trees.generates 20 (fun m =>
      (OrderedMap.find? "Leaf" m.definitions).any fun d => d.object?.any fun o =>
        o.properties.any (·.type.mentioned? == some "State")) = true := by decide +kernel
  obtain ⟨m, h, hok⟩ := Program.generates_iff.mp hgen
  obtain ⟨d, hd, hleaf⟩ := (Option.any_eq_true _ _).mp hok
  obtain ⟨o, ho, hstate⟩ := (Option.any_eq_true _ _).mp hleaf
  obtain ⟨q, hq, hname⟩ := List.any_eq_true.mp hstate
  have hmention : m.Mentions "State" :=
    .inr ⟨_, OrderedMap.mem_of_find?_eq_some hd, o, ho, .inl ⟨q, hq, by simpa using hname⟩⟩
  exact ⟨m, h, hmention, (mentioned_names_are_defined h).1 "State" hmention⟩

end DecoratedApi
