import DecoratedApi.Proofs.Inheritance
import DecoratedApi.Proofs.Instances

/-!
# Listed names

A class, an interface and an alias of an object type list names of properties. An alias of a type
parameter lists none: it has those that the parameter stands for. A type is tidy when no object type
in it lists a name twice, and from what is tidy nothing is built that repeats a name.
-/

namespace DecoratedApi

/-! ## What a declaration lists -/

/-- The names that a type lists when it is an object type, as they are written. -/
def TypeNode.listed : TypeNode → List String
  | object properties _ => properties.map (·.name)
  | _ => []

/-- The names that a declaration lists itself. -/
def Declaration.listed : Declaration → List String
  | ofClass c => c.properties.map (·.name)
  | ofInterface d => d.properties.map (·.name)
  | ofAlias a => a.value.listed
  | ofEnum _ => []

theorem PropertyOf.names_substitute (b : Bindings) (properties : List PropertyDecl) :
    (properties.map (PropertyOf.substitute b)).map (·.name) = properties.map (·.name) := by
  rw [List.map_map]
  rfl

theorem TypeNode.listed_substitute {node : TypeNode} {b : Bindings} (h : ∀ n, node ≠ named n) :
    (node.substitute b).listed = node.listed := by
  cases node with
  | reference name arguments =>
    cases arguments with
    | nil => exact absurd rfl (h name)
    | cons first rest => rfl
  | object properties index =>
    rw [substitute, substituteProperties_eq_map, listed, listed, PropertyOf.names_substitute]
  | _ => rfl

namespace Resolver

variable {key : String} {b : Blueprint}

variable {declaration : Declaration} {arguments : List TypeNode} {ctx : ResolveContext}

theorem ofDeclaration_define (h : Plan.ofDeclaration arguments ctx declaration = .define key b) :
    ∃ i, Instance.of declaration.name declaration.typeParameters arguments = .ok i ∧
      ((∃ decl, declaration = .ofInterface decl ∧ b = .ofInterface decl i.bindings) ∨
        (∃ decl, declaration = .ofClass decl ∧ b = .ofClass decl i.bindings) ∨
        ∃ decl members index, declaration = .ofAlias decl ∧
          decl.value.substitute i.bindings = .object members index ∧
          b = .ofAlias decl members index) := by
  cases declaration with
  | ofEnum decl =>
    simp only [Plan.ofDeclaration] at h
    split at h
    · split at h <;> cases h
    · cases h
  | ofInterface decl =>
    simp only [Plan.ofDeclaration, Plan.ofInstance] at h
    split at h
    · next i hi =>
      cases h
      exact ⟨i, hi, .inl ⟨decl, rfl, rfl⟩⟩
    · cases h
  | ofClass decl =>
    simp only [Plan.ofDeclaration, Plan.ofInstance] at h
    split at h
    · next i hi =>
      cases h
      exact ⟨i, hi, .inr (.inl ⟨decl, rfl, rfl⟩)⟩
    · cases h
  | ofAlias decl =>
    simp only [Plan.ofDeclaration, Plan.ofInstance] at h
    split at h
    · next i hi =>
      split at h
      · next members index hvalue =>
        cases h
        exact ⟨i, hi, .inr (.inr ⟨decl, members, index, rfl, hvalue, rfl⟩)⟩
      · cases h
    · cases h

/-- The declaration is an alias of one of its parameters, which stands for the type. -/
def Referent.IsAliasOf (q : Referent) (t : TypeNode) : Prop :=
  ∃ a n i, q.declaration = .ofAlias a ∧ a.value = .named n ∧
    Instance.of a.name a.typeParameters q.arguments = .ok i ∧ i.bindings.find? n = some t

theorem listed_of_define (h : Plan.ofDeclaration arguments ctx declaration = .define key b) :
    b.members.map (·.name) = declaration.listed ∨
      ∃ members index, Referent.IsAliasOf ⟨declaration, arguments⟩ (.object members index) ∧
        b.members = members := by
  obtain ⟨i, hi, ⟨decl, rfl, rfl⟩ | ⟨decl, rfl, rfl⟩ | ⟨decl, members, index, rfl, hvalue, rfl⟩⟩ :=
    ofDeclaration_define h
  · exact .inl (PropertyOf.names_substitute _ _)
  · exact .inl (PropertyOf.names_substitute _ _)
  · -- Substitution keeps the names of an object type; only in place of a name it puts other ones.
    by_cases hnode : ∃ n, decl.value = .named n
    · obtain ⟨n, hn⟩ := hnode
      rw [hn, TypeNode.substitute_named, Bindings.lookup] at hvalue
      refine .inr ⟨members, index, ⟨decl, n, i, rfl, hn, hi, ?_⟩, rfl⟩
      cases hfind : i.bindings.find? n with
      | none => simp [hfind, TypeNode.named] at hvalue
      | some t => simpa [hfind] using hvalue
    · have hlisted := TypeNode.listed_substitute (b := i.bindings) fun n hn => hnode ⟨n, hn⟩
      rw [hvalue] at hlisted
      exact .inl hlisted

end Resolver

/-! ## Tidy types -/

namespace TypeNode

variable {node t : TypeNode} {b : Bindings}

/-- No object type in it, at any depth, lists a name twice. -/
def IsTidy (node : TypeNode) : Prop := ∀ t, Within t node → t.listed.Nodup

theorem isTidy_iff : node.IsTidy ↔ node.listed.Nodup ∧ ∀ part ∈ node.parts, part.IsTidy := by
  constructor
  · intro h
    exact ⟨h node .self, fun part hpart t ht => h t (.part hpart ht)⟩
  · rintro ⟨hnode, hparts⟩ t ht
    obtain rfl | ⟨part, hpart, ht⟩ := within_iff.mp ht
    · exact hnode
    · exact hparts part hpart t ht

theorem isTidy_named (name : String) : (named name).IsTidy :=
  isTidy_iff.mpr ⟨List.nodup_nil, nofun⟩

theorem isTidy_toNode (shape : Shape) : shape.toNode.IsTidy := by
  induction shape with
  | keyword k => exact isTidy_iff.mpr ⟨List.nodup_nil, nofun⟩
  | array element ih =>
    exact isTidy_iff.mpr ⟨List.nodup_nil, by simpa [Shape.toNode, parts] using ih⟩
  | named name => exact isTidy_named name

theorem IsTidy.substitute (h : node.IsTidy)
    (hb : ∀ name t, b.find? name = some t → t.IsTidy) : (node.substitute b).IsTidy := by
  induction node using parts_induction with
  | h node ih =>
    by_cases hnode : ∃ n, node = named n
    · obtain ⟨n, rfl⟩ := hnode
      rw [substitute_named, Bindings.lookup]
      cases hfind : b.find? n with
      | none => exact isTidy_named n
      | some t => exact hb n t hfind
    · have hne : ∀ n, node ≠ named n := fun n hn => hnode ⟨n, hn⟩
      obtain ⟨hlisted, hparts⟩ := isTidy_iff.mp h
      rw [isTidy_iff, listed_substitute hne, (parts_substitute hne).2]
      refine ⟨hlisted, fun part hpart => ?_⟩
      obtain ⟨part, hmem, rfl⟩ := List.mem_map.mp hpart
      exact ih part hmem (hparts part hmem)

end TypeNode

/-- The declaration lists no name twice, and neither does an object type in its types or in the
defaults of its parameters. -/
structure Declaration.IsTidy (d : Declaration) : Prop where
  listed : d.listed.Nodup
  nodes : ∀ node ∈ d.nodes, node.IsTidy
  defaults : ∀ q ∈ d.typeParameters, ∀ t, q.fallback = some t → t.IsTidy

theorem Declaration.IsTidy.bindings {d : Declaration} (h : d.IsTidy) {arguments : List TypeNode}
    {i : Instance} (harguments : ∀ t ∈ arguments, t.IsTidy)
    (hi : Instance.of d.name d.typeParameters arguments = .ok i) (name : String) (t : TypeNode)
    (hfind : i.bindings.find? name = some t) : t.IsTidy := by
  obtain ht | ⟨q, hq, -, ht⟩ := Instance.source_of_find? hi hfind
  · exact harguments t ht
  · exact h.defaults q (List.mem_of_mem_drop hq) t ht

namespace Resolver

variable {p : Program} {depth : Nat} {calls : List (TypeNode × ResolveContext)} {key : String}
  {b : Blueprint}

theorem ofDeclaration_tidy {declaration : Declaration} (h : declaration.IsTidy)
    {arguments : List TypeNode} (harguments : ∀ t ∈ arguments, t.IsTidy) (ctx : ResolveContext) :
    ∀ node ∈ (Plan.ofDeclaration arguments ctx declaration).nodes, node.IsTidy := by
  obtain ⟨o, hplan⟩ | ⟨e, hplan, -⟩ | ⟨key, b, hplan⟩ | ⟨a, i, rfl, hi, -, hplan⟩ :=
    ofDeclaration_cases arguments ctx declaration <;> rw [hplan]
  · nofun
  · nofun
  · obtain ⟨i, hi, hbuilt⟩ := ofDeclaration_define hplan
    have hnodes : ∀ node ∈ declaration.nodes, (node.substitute i.bindings).IsTidy :=
      fun node hnode => (h.nodes node hnode).substitute (h.bindings harguments hi)
    rw [Plan.nodes]
    obtain ⟨decl, rfl, rfl⟩ | ⟨decl, rfl, rfl⟩ | ⟨decl, members, index, rfl, hvalue, rfl⟩ := hbuilt
    · rw [Blueprint.nodes_ofInterface]
      exact List.forall_mem_map.mpr hnodes
    · rw [Blueprint.nodes_ofClass]
      exact List.forall_mem_map.mpr hnodes
    · have hobject := hnodes decl.value List.mem_cons_self
      rw [hvalue, TypeNode.isTidy_iff] at hobject
      simpa [Blueprint.nodes, Blueprint.ofAlias, TypeNode.parts] using hobject.2
  · exact List.forall_mem_singleton.mpr
      ((h.nodes a.value List.mem_cons_self).substitute (h.bindings harguments hi))

section Tidy

variable (hp : ∀ declaration ∈ p.declarations, declaration.IsTidy)

include hp

theorem plan_tidy {node : TypeNode} (h : node.IsTidy) (ctx : ResolveContext) :
    (∀ part ∈ (plan p node ctx).nodes, part.IsTidy) ∧
      ∀ key b, plan p node ctx = .define key b → (b.members.map (·.name)).Nodup := by
  obtain ⟨-, hparts⟩ := TypeNode.isTidy_iff.mp h
  obtain ⟨o, hplan⟩ | ⟨part, hpart, hplan⟩ | ⟨name, arguments, declaration, rfl, hd, hplan⟩ :=
    plan_cases p node ctx
  · simp [hplan, Plan.nodes]
  · rcases hplan with hplan | hplan <;> simpa [hplan, Plan.nodes] using hparts part hpart
  · have hdeclaration : declaration.IsTidy := by
      refine hp declaration ?_
      have hfind := (declarationOf_ok hd).1
      rw [Program.find_eq] at hfind
      exact List.mem_of_mem_filter (hfind ▸ List.mem_cons_self)
    rw [hplan]
    refine ⟨ofDeclaration_tidy hdeclaration hparts ctx, fun key b hdefine => ?_⟩
    obtain hlisted | ⟨members, index, ⟨a, n, i, rfl, -, hi, hfind⟩, rfl⟩ := listed_of_define hdefine
    · rw [hlisted]
      exact hdeclaration.listed
    · exact (TypeNode.isTidy_iff.mp (hdeclaration.bindings hparts hi n _ hfind)).1

theorem Call.Makes.tidy {c c' : Call} (h : Call.Makes p c c') (hc : c.node.IsTidy) :
    c'.node.IsTidy := by
  cases h with
  | @same depth node node' ctx start hplan =>
    have htidy := (plan_tidy hp hc ctx).1
    rw [hplan] at htidy
    exact htidy node' List.mem_cons_self
  | @element depth node node' ctx start hplan =>
    have htidy := (plan_tidy hp hc ctx).1
    rw [hplan] at htidy
    exact htidy node' List.mem_cons_self
  | @part depth node node' ctx ctx' start u key b hbegins hasks =>
    have htidy := (plan_tidy hp hc ctx).1
    rw [hbegins.1, Plan.nodes, Blueprint.nodes] at htidy
    cases hasks with
    | @member before after m ps _ hmembers _ =>
      rw [propertyNode]
      cases htype : m.type with
      | some node =>
        refine htidy node (List.mem_append_left _ (List.mem_append_left _ ?_))
        exact List.mem_filterMap.mpr ⟨m, by simp [hmembers], htype⟩
      | none =>
        -- A type that is read off an initializer has no object types in it.
        cases m.initializer with
        | some e => exact TypeNode.isTidy_toNode e.shape
        | none => exact TypeNode.isTidy_toNode (.keyword .any)
    | index hindex _ => exact htidy _ (by simp [hindex])
    | base hbases _ _ _ => exact htidy _ (by simp [hbases])

theorem Call.tidy_of_makes {c c' : Call} (h : Relation.ReflTransGen (Call.Makes p) c c')
    (hc : c.node.IsTidy) : c'.node.IsTidy := by
  induction h with
  | refl => exact hc
  | tail _ hmakes ih => exact hmakes.tidy hp ih

theorem Builds.nodup (hcalls : ∀ call ∈ calls, call.1.IsTidy) (h : Builds p depth calls key b) :
    (b.members.map (·.name)).Nodup := by
  obtain ⟨before, node, ctx, after, -, s, c, rfl, -, hmakes, hplan, -⟩ := h
  have hnode : node.IsTidy := hcalls (node, ctx) (by simp)
  exact (plan_tidy hp (Call.tidy_of_makes hp hmakes hnode) c.ctx).2 key b hplan

end Tidy

end Resolver

end DecoratedApi
