import DecoratedApi.Proofs.Components
import DecoratedApi.Proofs.Flattening
import DecoratedApi.Proofs.Listed

/-!
# Names of properties

A definition that takes over another one gains only names that it does not have yet. So its names
are distinct exactly when those are that it has of its own, and these stand first. The component of
the definition has the same names in the same order (`own_names_come_first`).
-/

namespace DecoratedApi

/-! ## Taking over -/

theorem Property.nodup_unseen (seen : List String) (qs : List Property) :
    (seen ++ (unseen seen qs).map (·.name)).Nodup ↔ seen.Nodup := by
  induction qs generalizing seen with
  | nil => simp [unseen]
  | cons q rest ih =>
    rw [unseen]
    split
    · exact ih seen
    · next hnew =>
      rw [List.map_cons, List.append_cons, ih, List.nodup_append_comm, List.singleton_append,
        List.nodup_cons]
      exact and_iff_right hnew

namespace ObjectDefinition

/-- The names of the properties, in order and with all repetitions. -/
def names (d : ObjectDefinition) : List String := d.properties.map (·.name)

variable {d d' own : ObjectDefinition}

/-- The definition is the other one, with some definitions taken over in turn. -/
def GrownFrom (d own : ObjectDefinition) : Prop :=
  ∃ bs : List ObjectDefinition, d = bs.foldl inherit own

namespace GrownFrom

theorem refl (d : ObjectDefinition) : d.GrownFrom d := ⟨[], rfl⟩

theorem inherit (d b : ObjectDefinition) : (d.inherit b).GrownFrom d := ⟨[b], rfl⟩

theorem trans (h : d'.GrownFrom d) (h' : d.GrownFrom own) : d'.GrownFrom own := by
  obtain ⟨bs, rfl⟩ := h
  obtain ⟨bs', rfl⟩ := h'
  exact ⟨bs' ++ bs, List.foldl_append.symm⟩

theorem isPrefix (h : d.GrownFrom own) : own.properties <+: d.properties := by
  obtain ⟨bs, rfl⟩ := h
  rw [properties_foldl_inherit]
  exact List.prefix_append _ _

theorem nodup_names_iff (h : d.GrownFrom own) : d.names.Nodup ↔ own.names.Nodup := by
  obtain ⟨bs, rfl⟩ := h
  rw [names, properties_foldl_inherit, List.map_append]
  exact Property.nodup_unseen _ _

end GrownFrom
end ObjectDefinition

/-! ## Components -/

namespace OpenApi

theorem Document.find?_schemas {info : Info} {controllers : List Controller}
    {defs : OrderedMap Definition} (hdefs : (OrderedMap.keys defs).Nodup) (name : String) :
    OrderedMap.find? name (addMetadata { info } ⟨controllers, defs⟩).schemas =
      (OrderedMap.find? name defs).map Schema.ofDefinition := by
  have hkeys : (OrderedMap.keys (defs.map fun e => (e.1, Schema.ofDefinition e.2))).Nodup := by
    rw [OrderedMap.keys, List.map_map]
    exact hdefs
  rw [schemas_addMetadata, OrderedMap.ofList_eq_self hkeys, OrderedMap.find?_map]

theorem Schema.required_ofObject (d : ObjectDefinition) :
    (ofObject d).required.getD [] = (d.properties.filter (·.required)).map (·.name) := by
  simp only [ofObject, unlessEmpty]
  split
  · next h => rw [List.isEmpty_iff.mp h, Option.getD_none]
  · rw [Option.getD_some]

end OpenApi

namespace Resolver

open Resolve

variable {p : Program} {depth : Nat} {calls : List (TypeNode × ResolveContext)}
  {outcomes : List (Outcome ApiType)} {s s' : ResolverState} {key : String} {b : Blueprint}
  {d d' own : ObjectDefinition}

/-! ## Definitions in the end -/

theorem Becomes.name {flag : Bool} {m : PropertyDecl} {x : Property} (h : Becomes p flag m x) :
    x.name = m.name := by
  obtain ⟨depth, s, s', h⟩ := h
  obtain ⟨t, s₁, -, h⟩ := runFrom_bind_ok.mp h
  obtain ⟨v, s₂, -, h⟩ := runFrom_bind_ok.mp h
  cases h
  rfl

theorem Blueprint.Declares.names (h : b.Declares p key own) :
    own.names = b.members.map (·.name) := by
  obtain ⟨-, -, hmembers, -⟩ := h
  rw [ObjectDefinition.names]
  generalize b.members = members, own.properties = xs at hmembers
  induction hmembers with
  | nil => rfl
  | cons hx _ ih => rw [List.map_cons, List.map_cons, hx.name, ih]

theorem inheritAll_grows {self : Recursor} {bases : List TypeNode}
    (h : (inheritAll self d bases).runFrom s = some (.ok d', s')) : d'.GrownFrom d := by
  induction bases generalizing s d with
  | nil =>
    cases h
    exact .refl _
  | cons base rest ih =>
    obtain ⟨d₁, s₁, hone, hrest⟩ := runFrom_bind_ok.mp h
    obtain ⟨n, u, -, ⟨-, rfl, -⟩ | ⟨-, rfl, -⟩⟩ := inheritOne_ok hone
    · cases hfound : u.table.object? n with
      | none =>
        rw [hfound] at hrest
        exact ih hrest
      | some found =>
        rw [hfound] at hrest
        exact (ih hrest).trans (.inherit d found)
    · exact ih hrest

theorem Builds.grownFrom (hsession : resolveAll p depth calls {} = some (outcomes, s))
    (hok : ∀ r ∈ outcomes, r.isOk = true) (h : Builds p depth calls key b) :
    ∃ own d, b.Declares p key own ∧ s.table.object? key = some d ∧ d.GrownFrom own := by
  obtain ⟨depth', s₀, d, v, hnew, hbuild, hkeeps⟩ := h.ended hsession hok
  obtain ⟨-, rfl, -⟩ := build_takesOver (resolve_advances p depth') (Building.opened hnew).slot
    hbuild
  obtain ⟨ps, s₁, extra, s₂, hps, hextra, hrest⟩ := build_ok.mp hbuild
  have hready := hkeeps.ready d.name (.object d) (v.slot?_closed d)
  exact ⟨_, d, Blueprint.declares_own hps hextra, ReferenceTable.object?_eq_some_iff.mpr hready,
    inheritAll_grows hrest⟩

theorem built_of_finish {name : String} {defs : OrderedMap Definition}
    (hsession : resolveAll p depth calls {} = some (outcomes, s))
    (hok : ∀ r ∈ outcomes, r.isOk = true) (hfinish : finish s = .ok defs)
    (hd : OrderedMap.find? name defs = some (.object d)) :
    ∃ b own, Builds p depth calls name b ∧ b.Declares p name own ∧ d.GrownFrom own := by
  obtain ⟨t, hrun, hdefs⟩ := finish_ok.mp hfinish
  rw [ReferenceTable.find?_definitions hdefs, ReferenceTable.get?_eq_some_iff] at hd
  have hkinds := Deferred.runAll_sameKinds hrun
  have hcontains : s.table.contains name = true := by
    rw [← hkinds.contains, ReferenceTable.contains_iff, hd]
    rfl
  have hpending := not_pending_of_advances ((resolveAll_advances hsession).2.2 hok) name
  obtain ⟨x, hx⟩ := ReferenceTable.exists_ready hcontains hpending
  cases x with
  | enum e =>
    -- The deferred work makes no object type of an enum.
    rw [hkinds.enum name e hx] at hd
    cases hd
  | object o =>
    obtain ⟨b, hbuilds⟩ := builds_of_object hsession hok hx
    obtain ⟨own, d₀, hown, hd₀, hgrown⟩ := hbuilds.grownFrom hsession hok
    have hfinal := Deferred.runAll_object? hrun hd₀
    rw [ReferenceTable.object?_eq_some_iff.mpr hd] at hfinal
    exact ⟨b, own, hbuilds, hown, .trans ⟨_, Option.some.inj hfinal⟩ hgrown⟩

end Resolver

open Resolver OpenApi

/-- After a session without failures in which no declaration lists a name twice: an object type is
built from a declaration with arguments, and what that declares itself stands first, in its order.
These are the names that the declaration lists, and then no name is repeated. Or the declaration is
an alias of a parameter, and a name is repeated exactly when the object type that it stands for
repeats one; where every object type that is written lists each name once, this never happens. The
component of the type requires the names of the required properties and, where no name is repeated,
lists all names in their order. -/
theorem own_names_come_first {p : Program} {depth : Nat} {calls : List (TypeNode × ResolveContext)}
    {outcomes : List (Outcome ApiType)} {s : ResolverState} {defs : OrderedMap Definition}
    {name : String} {d : ObjectDefinition}
    (hsession : resolveAll p depth calls {} = some (outcomes, s))
    (hok : ∀ r ∈ outcomes, r.isOk = true) (hfinish : finish s = .ok defs)
    (hlisted : ∀ declaration ∈ p.declarations, declaration.listed.Nodup)
    (hd : OrderedMap.find? name defs = some (.object d)) :
    (∃ (q : Referent) (b : Blueprint) (own : ObjectDefinition), Builds p depth calls name b ∧
      q.declaration ∈ p.declarations ∧ q.plan = .define name b ∧ b.Declares p name own ∧
      own.properties <+: d.properties ∧
      (own.names = q.declaration.listed ∧ d.names.Nodup ∨
        ∃ members index, q.IsAliasOf (.object members index) ∧
          own.names = members.map (·.name) ∧
          (d.names.Nodup ↔ (members.map (·.name)).Nodup))) ∧
    ((∀ declaration ∈ p.declarations, declaration.IsTidy) →
      (∀ call ∈ calls, call.1.IsTidy) → d.names.Nodup) ∧
    ∀ info controllers, ∃ schema ps,
      OrderedMap.find? name (Document.addMetadata { info } ⟨controllers, defs⟩).schemas =
        some schema ∧
      schema.properties = some ps ∧
      schema.required.getD [] = (d.properties.filter (·.required)).map (·.name) ∧
      (d.names.Nodup → OrderedMap.keys ps = d.names ∧ (schema.required.getD []).Nodup) := by
  obtain ⟨b, own, hbuilds, hown, hgrown⟩ := built_of_finish hsession hok hfinish hd
  obtain ⟨q, hq, hplan⟩ := hbuilds.declaration
  refine ⟨⟨q, b, own, hbuilds, hq, hplan, hown, hgrown.isPrefix, ?_⟩, fun hp hcalls => ?_,
    fun info controllers => ?_⟩
  · rw [hgrown.nodup_names_iff, hown.names]
    obtain hnames | ⟨members, index, halias, rfl⟩ := listed_of_define hplan
    · rw [hnames]
      exact .inl ⟨rfl, hlisted _ hq⟩
    · exact .inr ⟨b.members, index, halias, rfl, Iff.rfl⟩
  · rw [hgrown.nodup_names_iff, hown.names]
    exact hbuilds.nodup hp hcalls
  · obtain ⟨-, hwell, -⟩ := resolveAll_advances hsession
    obtain ⟨hdefs, -, -⟩ := finish_closed (hwell .fresh) hfinish
    refine ⟨Schema.ofObject d, _, ?_, rfl, Schema.required_ofObject d, fun hnodup => ⟨?_, ?_⟩⟩
    · rw [Document.find?_schemas hdefs, hd]
      rfl
    · have hkeys : OrderedMap.keys (d.properties.map fun q => (q.name, Schema.ofProperty q)) =
          d.names := by
        rw [OrderedMap.keys, List.map_map]
        rfl
      rw [OrderedMap.ofList_eq_self (hkeys ▸ hnodup), hkeys]
    · rw [Schema.required_ofObject]
      exact hnodup.sublist (List.filter_sublist.map _)

/-! ## Shelves -/

def TypeNode.pair (first second : String) : TypeNode :=
  .object
    [PropertyDecl.plain first (.keyword .string), PropertyDecl.plain second (.keyword .number)] none

theorem TypeNode.isTidy_pair {first second : String} (h : first ≠ second) :
    (pair first second).IsTidy := by
  refine isTidy_iff.mpr ⟨by simpa [pair, listed, PropertyDecl.plain] using h, ?_⟩
  intro part hpart
  obtain rfl | rfl : part = .keyword .string ∨ part = .keyword .number := by
    simpa [pair, parts, PropertyDecl.plain] using hpart
  · exact isTidy_toNode (.keyword .string)
  · exact isTidy_toNode (.keyword .number)

/-- A box is whatever is put into it. A shelf is a box with another label. -/
def Program.shelves : Program :=
  { units := [
      { path := "shelves.ts"
        imports := []
        declarations := [
          .ofAlias
            { name := "Box", doc := none, typeParameters := [⟨"T", none⟩], value := .named "T" },
          .plainInterface "Shelf" [.reference "Box" [.pair "label" "place"]]
            [.plain "label" (.keyword .number)]] }] }

theorem Program.shelves_isTidy : ∀ declaration ∈ shelves.declarations, declaration.IsTidy := by
  have hbox : (TypeNode.reference "Box" [.pair "label" "place"]).IsTidy :=
    TypeNode.isTidy_iff.mpr ⟨List.nodup_nil,
      List.forall_mem_singleton.mpr (TypeNode.isTidy_pair (by decide))⟩
  have hnumber : (TypeNode.keyword .number).IsTidy := TypeNode.isTidy_toNode (.keyword .number)
  refine List.forall_mem_cons.mpr ⟨⟨by decide, ?_, by simp [Declaration.typeParameters]⟩,
    List.forall_mem_singleton.mpr ⟨by decide, ?_, fun _ hq => by cases hq⟩⟩
  · exact List.forall_mem_singleton.mpr (TypeNode.isTidy_named "T")
  · exact List.forall_mem_cons.mpr ⟨hnumber, List.forall_mem_singleton.mpr hbox⟩

theorem Resolver.names_of_concludes (p : Program) (depth : Nat)
    (calls : List (TypeNode × ResolveContext)) (name : String) (names : List String)
    (h : concludes p depth calls (fun outcomes _ defs => outcomes.all (·.isOk) &&
      (OrderedMap.find? name defs).any fun x => x.object?.any fun d => decide (d.names = names)) =
        true) :
    ∃ outcomes s defs d, resolveAll p depth calls {} = some (outcomes, s) ∧
      (∀ r ∈ outcomes, r.isOk = true) ∧ finish s = .ok defs ∧
      OrderedMap.find? name defs = some (.object d) ∧ d.names = names := by
  obtain ⟨outcomes, s, defs, hsession, hfinish, hcheck⟩ := concludes_iff.mp h
  simp only [Bool.and_eq_true, List.all_eq_true] at hcheck
  obtain ⟨hok, hfound⟩ := hcheck
  obtain ⟨d, hd, hnames⟩ := Definition.exists_object hfound
  exact ⟨outcomes, s, defs, d, hsession, hok, hfinish, hd, of_decide_eq_true hnames⟩

theorem shelf_names_are_distinct :
    ∃ outcomes s defs d schema ps,
      resolveAll .shelves 20 [(.named "Shelf", {})] {} = some (outcomes, s) ∧
      finish s = .ok defs ∧ OrderedMap.find? "Shelf" defs = some (.object d) ∧
      d.names = ["label", "place"] ∧ d.names.Nodup ∧
      OrderedMap.find? "Shelf" (Document.addMetadata {} ⟨[], defs⟩).schemas = some schema ∧
      schema.properties = some ps ∧ OrderedMap.keys ps = ["label", "place"] := by
  obtain ⟨outcomes, s, defs, d, hsession, hok, hfinish, hd, hnames⟩ :=
    names_of_concludes .shelves 20 [(.named "Shelf", {})] "Shelf" ["label", "place"]
      (by decide +kernel)
  obtain ⟨-, htidy, hcomponent⟩ := own_names_come_first hsession hok hfinish
    (fun declaration hmem => (Program.shelves_isTidy declaration hmem).listed) hd
  have hnodup := htidy Program.shelves_isTidy
    (List.forall_mem_singleton.mpr (TypeNode.isTidy_named "Shelf"))
  obtain ⟨schema, ps, hschema, hps, -, hkeys⟩ := hcomponent {} []
  exact ⟨outcomes, s, defs, d, schema, ps, hsession, hfinish, hd, hnames, hnodup, hschema, hps,
    (hkeys hnodup).1.trans hnames⟩

/-- A box of two labels has both of them, though no declaration lists a name twice. -/
theorem boxed_labels_are_repeated :
    (∀ declaration ∈ Program.shelves.declarations, declaration.listed.Nodup) ∧
    ∃ outcomes s defs d,
      resolveAll .shelves 20 [(.reference "Box" [.pair "label" "label"], {})] {} =
        some (outcomes, s) ∧
      (∀ r ∈ outcomes, r.isOk = true) ∧ finish s = .ok defs ∧
      OrderedMap.find? "Boxobject" defs = some (.object d) ∧ d.names = ["label", "label"] ∧
      ¬d.names.Nodup := by
  obtain ⟨outcomes, s, defs, d, hsession, hok, hfinish, hd, hnames⟩ :=
    names_of_concludes .shelves 20 [(.reference "Box" [.pair "label" "label"], {})] "Boxobject"
      ["label", "label"] (by decide +kernel)
  refine ⟨fun declaration hmem => (Program.shelves_isTidy declaration hmem).listed, outcomes, s,
    defs, d, hsession, hok, hfinish, hd, hnames, ?_⟩
  rw [hnames]
  decide

end DecoratedApi
