import DecoratedApi.Proofs.Plan

/-!
# Parts of a type annotation

A type is made of other types: arguments, elements, members, the types of properties. `Within` goes
down to any depth. The names that stand in a type without arguments are those that a substitution
replaces, and it replaces nothing else. A type is resolved through one of its parts or through a
declaration (`plan_cases`).
-/

namespace DecoratedApi

/-- What a name stands for, be it bound or not. -/
def Bindings.lookup (b : Bindings) (name : String) : TypeNode := (b.find? name).getD (.named name)

/-- The property with its type changed. -/
def PropertyOf.mapType (f : TypeNode → TypeNode) (m : PropertyDecl) : PropertyDecl :=
  { m with type := m.type.map f }

theorem PropertyOf.types_map (f : TypeNode → TypeNode) (properties : List PropertyDecl) :
    (properties.map (mapType f)).filterMap (·.type) = (properties.filterMap (·.type)).map f := by
  rw [List.filterMap_map, List.map_filterMap]
  rfl

namespace TypeNode

variable {t part node : TypeNode} {b : Bindings} {name other : String}

/-- The types that a type is directly made of. -/
def parts : TypeNode → List TypeNode
  | reference _ arguments => arguments
  | array element => [element]
  | union members => members
  | intersection members => members
  | object properties index => properties.filterMap (·.type) ++ index.toList
  | keyword _ | literal _ | unsupported _ _ => []

theorem sizeOf_lt_of_mem_parts (h : part ∈ node.parts) : sizeOf part < sizeOf node := by
  cases node with
  | reference name arguments =>
    have hlt : sizeOf part < sizeOf arguments := List.sizeOf_lt_of_mem h
    simp only [reference.sizeOf_spec]
    omega
  | array element =>
    obtain rfl := List.mem_singleton.mp h
    simp only [array.sizeOf_spec]
    omega
  | union members | intersection members =>
    have hlt : sizeOf part < sizeOf members := List.sizeOf_lt_of_mem h
    simp only [union.sizeOf_spec, intersection.sizeOf_spec]
    omega
  | object properties index =>
    simp only [object.sizeOf_spec]
    rcases List.mem_append.mp h with h | h
    · obtain ⟨m, hm, htype⟩ := List.mem_filterMap.mp h
      have hlt := List.sizeOf_lt_of_mem hm
      obtain ⟨n, doc, type, optional, initializer⟩ := m
      obtain rfl : type = some part := htype
      simp only [PropertyOf.mk.sizeOf_spec, Option.some.sizeOf_spec] at hlt
      omega
    · obtain rfl := Option.mem_toList.mp h
      simp only [Option.some.sizeOf_spec]
      omega
  | _ => cases h

theorem parts_induction {motive : TypeNode → Prop}
    (h : ∀ node, (∀ part ∈ node.parts, motive part) → motive node) (node : TypeNode) :
    motive node :=
  h node fun part hpart =>
    have := sizeOf_lt_of_mem_parts hpart
    parts_induction h part
termination_by sizeOf node

/-- The type stands in the other one, at any depth. -/
inductive Within (t : TypeNode) : TypeNode → Prop
  | self : Within t t
  | part {part node : TypeNode} (hpart : part ∈ node.parts) (h : Within t part) : Within t node

theorem within_iff : Within t node ↔ t = node ∨ ∃ part ∈ node.parts, Within t part := by
  constructor
  · intro h
    cases h with
    | self => exact .inl rfl
    | part hpart h => exact .inr ⟨_, hpart, h⟩
  · rintro (rfl | ⟨part, hpart, h⟩)
    · exact .self
    · exact .part hpart h

/-! ## Names without arguments -/

/-- The name stands in the type, at any depth and without arguments. -/
def Names (node : TypeNode) (name : String) : Prop := Within (named name) node

@[simp]
theorem names_named : (named name).Names other ↔ name = other := by
  rw [Names, within_iff]
  simp [named, parts, eq_comm]

theorem names_iff_of_ne (h : ∀ n, node ≠ named n) :
    node.Names name ↔ ∃ part ∈ node.parts, part.Names name := by
  rw [Names, within_iff, or_iff_right (Ne.symm (h name))]
  rfl

@[simp]
theorem names_keyword {k : Keyword} : ¬(keyword k).Names name := by
  rw [names_iff_of_ne (by simp [named])]
  simp [parts]

/-! ## Changing the parts -/

variable {f g : TypeNode → TypeNode}

/-- The type with each of its parts changed. -/
def mapParts (f : TypeNode → TypeNode) : TypeNode → TypeNode
  | reference name arguments => reference name (arguments.map f)
  | array element => array (f element)
  | union members => union (members.map f)
  | intersection members => intersection (members.map f)
  | object properties index => object (properties.map (PropertyOf.mapType f)) (index.map f)
  | keyword k => keyword k
  | literal l => literal l
  | unsupported kind text => unsupported kind text

theorem parts_mapParts : (node.mapParts f).parts = node.parts.map f := by
  cases node with
  | object properties index =>
    rw [mapParts, parts, parts, PropertyOf.types_map, Option.toList_map, List.map_append]
  | _ => rfl

theorem mapParts_ne_named (h : ∀ n, node ≠ named n) (n : String) : node.mapParts f ≠ named n := by
  cases node with
  | reference name arguments =>
    rw [mapParts, named, ne_eq, reference.injEq, List.map_eq_nil_iff]
    rintro ⟨rfl, rfl⟩
    exact h name rfl
  | _ => simp [mapParts, named]

theorem mapParts_congr (h : ∀ part ∈ node.parts, f part = g part) :
    node.mapParts f = node.mapParts g := by
  cases node with
  | reference name arguments => exact congrArg (reference name) (List.map_congr_left h)
  | array element => exact congrArg array (h element List.mem_cons_self)
  | union members => exact congrArg union (List.map_congr_left h)
  | intersection members => exact congrArg intersection (List.map_congr_left h)
  | object properties index =>
    have hproperties : ∀ m ∈ properties, PropertyOf.mapType f m = PropertyOf.mapType g m := by
      intro m hm
      have htype : m.type.map f = m.type.map g := by
        refine Option.map_congr fun t ht => h t (List.mem_append_left _ ?_)
        exact List.mem_filterMap.mpr ⟨m, hm, ht⟩
      rw [PropertyOf.mapType, PropertyOf.mapType, htype]
    have hindex : index.map f = index.map g := by
      refine Option.map_congr fun t ht => h t (List.mem_append_right _ ?_)
      exact Option.mem_toList.mpr ht
    rw [mapParts, mapParts, List.map_congr_left hproperties, hindex]
  | _ => rfl

theorem mapParts_mapParts : (node.mapParts f).mapParts g = node.mapParts (g ∘ f) := by
  have hproperty : PropertyOf.mapType g ∘ PropertyOf.mapType f = PropertyOf.mapType (g ∘ f) := by
    funext m
    simp [PropertyOf.mapType]
  cases node <;> simp [mapParts, hproperty]

theorem mapParts_id : node.mapParts id = node := by
  have hproperty : PropertyOf.mapType id = id := by
    funext m
    simp [PropertyOf.mapType]
  cases node <;> simp [mapParts, hproperty]

/-! ## Substitution -/

theorem substitute_named : (named name).substitute b = b.lookup name := by
  simp only [named, substitute, Bindings.lookup]
  cases b.find? name <;> rfl

theorem substitute_eq_mapParts (h : ∀ n, node ≠ named n) :
    node.substitute b = node.mapParts (substitute b) := by
  cases node with
  | reference name arguments =>
    cases arguments with
    | nil => exact absurd rfl (h name)
    | cons first rest => rw [substitute, substituteAll_eq_map, mapParts, List.map_cons]
  | object properties index =>
    rw [substitute, substituteProperties_eq_map, substituteOption_eq_map]
    rfl
  | union members => rw [substitute, substituteAll_eq_map, mapParts]
  | intersection members => rw [substitute, substituteAll_eq_map, mapParts]
  | _ => rfl

theorem types_substitute (properties : List PropertyDecl) :
    (properties.map (PropertyOf.substitute b)).filterMap (·.type) =
      (properties.filterMap (·.type)).map (substitute b) :=
  PropertyOf.types_map (substitute b) properties

theorem parts_substitute (h : ∀ n, node ≠ named n) :
    (∀ n, node.substitute b ≠ named n) ∧
      (node.substitute b).parts = node.parts.map (substitute b) := by
  rw [substitute_eq_mapParts h]
  exact ⟨mapParts_ne_named h, parts_mapParts⟩

theorem names_substitute :
    (node.substitute b).Names name ↔ ∃ other, node.Names other ∧ (b.lookup other).Names name := by
  induction node using parts_induction with
  | h node ih =>
    by_cases hnode : ∃ n, node = named n
    · obtain ⟨n, rfl⟩ := hnode
      simp [substitute_named]
    · have hne : ∀ n, node ≠ named n := fun n hn => hnode ⟨n, hn⟩
      obtain ⟨hne', hparts⟩ := parts_substitute (b := b) hne
      rw [names_iff_of_ne hne', hparts]
      simp only [names_iff_of_ne hne]
      constructor
      · rintro ⟨_, hmem, h⟩
        obtain ⟨part, hpart, rfl⟩ := List.mem_map.mp hmem
        obtain ⟨other, hother, hname⟩ := (ih part hpart).mp h
        exact ⟨other, ⟨part, hpart, hother⟩, hname⟩
      · rintro ⟨other, ⟨part, hpart, hother⟩, hname⟩
        exact ⟨_, List.mem_map_of_mem hpart, (ih part hpart).mpr ⟨other, hother, hname⟩⟩

theorem substitute_eq_self_of_parts (h : ∀ n, node ≠ named n)
    (hparts : ∀ part ∈ node.parts, part.substitute b = part) : node.substitute b = node := by
  rw [substitute_eq_mapParts h, mapParts_congr (g := id) hparts, mapParts_id]

theorem substitute_eq_self_iff :
    node.substitute b = node ↔ ∀ name, node.Names name → b.lookup name = named name := by
  induction node using parts_induction with
  | h node ih =>
    by_cases hnode : ∃ n, node = named n
    · obtain ⟨n, rfl⟩ := hnode
      simp [substitute_named]
    · have hne : ∀ n, node ≠ named n := fun n hn => hnode ⟨n, hn⟩
      simp only [names_iff_of_ne hne]
      constructor
      · rintro h name ⟨part, hpart, hname⟩
        have hparts := (parts_substitute (b := b) hne).2
        rw [h] at hparts
        have hfixed : part.substitute b = part :=
          List.map_inj_left.mp (hparts.symm.trans (List.map_id _).symm) part hpart
        exact (ih part hpart).mp hfixed name hname
      · intro h
        refine substitute_eq_self_of_parts hne fun part hpart => ?_
        exact (ih part hpart).mpr fun name hname => h name ⟨part, hpart, hname⟩

theorem substitute_nil (node : TypeNode) : node.substitute [] = node :=
  substitute_eq_self_iff.mpr fun _ _ => rfl

end TypeNode

/-! ## Plans -/

namespace Resolver

theorem builtin?_list {name : String} {arguments : List TypeNode} {ctx : ResolveContext}
    {element : TypeNode} (h : builtin? name arguments ctx = some (.list element)) :
    arguments = [element] := by
  unfold builtin? at h
  split at h <;> simp_all

theorem builtin?_wrapper {name : String} {arguments : List TypeNode} {ctx : ResolveContext}
    {inner : TypeNode} (h : builtin? name arguments ctx = some (.wrapper inner)) :
    arguments = [inner] := by
  unfold builtin? at h
  split at h <;> simp_all

theorem ofDeclaration_cases (arguments : List TypeNode) (ctx : ResolveContext) (d : Declaration) :
    (∃ o, Plan.ofDeclaration arguments ctx d = .answer o) ∨
    (∃ e, Plan.ofDeclaration arguments ctx d = .register e ∧ ctx.extractEnum = true) ∨
    (∃ key b, Plan.ofDeclaration arguments ctx d = .define key b) ∨
    ∃ a i, d = .ofAlias a ∧ Instance.of a.name a.typeParameters arguments = .ok i ∧
      (∀ members index, a.value.substitute i.bindings ≠ .object members index) ∧
      Plan.ofDeclaration arguments ctx d = .same (a.value.substitute i.bindings) := by
  cases d with
  | ofEnum decl =>
    simp only [Plan.ofDeclaration]
    cases enumValues decl.name decl.members .zero with
    | error e => exact .inl ⟨_, rfl⟩
    | ok values =>
      cases hctx : ctx.extractEnum with
      | true => exact .inr (.inl ⟨_, rfl, rfl⟩)
      | false => exact .inl ⟨_, rfl⟩
  | ofAlias a =>
    simp only [Plan.ofDeclaration, Plan.ofInstance]
    cases hi : Instance.of a.name a.typeParameters arguments with
    | error e => exact .inl ⟨_, rfl⟩
    | ok i =>
      cases hvalue : a.value.substitute i.bindings with
      | object members index =>
        refine .inr (.inr (.inl ⟨i.key a.name, .ofAlias a members index, ?_⟩))
        simp only [hvalue]
      | _ => exact .inr (.inr (.inr ⟨a, i, rfl, hi, by simp [hvalue], by simp [hvalue]⟩))
  | ofInterface decl =>
    simp only [Plan.ofDeclaration, Plan.ofInstance]
    cases Instance.of decl.name decl.typeParameters arguments with
    | error e => exact .inl ⟨_, rfl⟩
    | ok i => exact .inr (.inr (.inl ⟨_, _, rfl⟩))
  | ofClass decl =>
    simp only [Plan.ofDeclaration, Plan.ofInstance]
    cases Instance.of decl.name decl.typeParameters arguments with
    | error e => exact .inl ⟨_, rfl⟩
    | ok i => exact .inr (.inr (.inl ⟨_, _, rfl⟩))

theorem plan_cases (p : Program) (node : TypeNode) (ctx : ResolveContext) :
    (∃ o, plan p node ctx = .answer o) ∨
    (∃ part ∈ node.parts, plan p node ctx = .same part ∨ plan p node ctx = .list part) ∨
    ∃ name arguments d, node = .reference name arguments ∧ declarationOf p name = .ok d ∧
      plan p node ctx = .ofDeclaration arguments ctx d := by
  cases node with
  | array element => exact .inr (.inl ⟨element, List.mem_cons_self, .inr rfl⟩)
  | union members =>
    simp only [plan, Plan.ofUnion]
    split
    · exact .inl ⟨_, rfl⟩
    · next single hsingle =>
      have hmem : single ∈ members.filter (!·.isNullish) := by simp [hsingle]
      exact .inr (.inl ⟨single, (List.mem_filter.mp hmem).1, .inl rfl⟩)
    · split <;> exact .inl ⟨_, rfl⟩
  | reference name arguments =>
    simp only [plan, Plan.ofName]
    split
    · exact .inl ⟨_, rfl⟩
    · next element hbuiltin =>
      exact .inr (.inl ⟨element, by simp [TypeNode.parts, builtin?_list hbuiltin], .inr rfl⟩)
    · next inner hbuiltin =>
      exact .inr (.inl ⟨inner, by simp [TypeNode.parts, builtin?_wrapper hbuiltin], .inl rfl⟩)
    · split
      · next d hd => exact .inr (.inr ⟨name, arguments, d, rfl, hd, rfl⟩)
      · exact .inl ⟨_, rfl⟩
  | _ => exact .inl ⟨_, rfl⟩

end Resolver
end DecoratedApi
