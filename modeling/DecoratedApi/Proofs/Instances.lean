import DecoratedApi.Proofs.Parts
import DecoratedApi.Proofs.Referent
import DecoratedApi.Proofs.Session

/-!
# Instances of generic declarations

A parameter stands for its argument or, where the argument is missing, for its default. The default
is taken as it is written: a parameter that it names is not replaced, and is left over in whatever
the declaration says with it (`defaults_are_bound_as_written`).
-/

namespace DecoratedApi

namespace Bindings

variable {b : Bindings} {name : String} {t : TypeNode}

theorem find?_eq (b : Bindings) (name : String) : b.find? name = OrderedMap.find? name b := by
  induction b with
  | nil => rfl
  | cons entry rest ih => simp only [find?, OrderedMap.find?, ih]

theorem lookup_of_find? (h : b.find? name = some t) : b.lookup name = t := by
  rw [lookup, h, Option.getD_some]

end Bindings

/-! ## Binding -/

namespace Instance

variable {name : String} {parameters : List TypeParameter} {arguments : List TypeNode}
  {i : Instance}

/-- What the parameters before a place stand for. -/
def earlier (i : Instance) (parameters : List TypeParameter) (place : Nat) : Bindings :=
  (((parameters.take place).map (·.name)).zip i.arguments).reverse

theorem bindAll_ok {acc : Instance} (h : bindAll name parameters arguments acc = .ok i) :
    ∃ filled, filled.length = parameters.length ∧ i.arguments = acc.arguments ++ filled ∧
      i.bindings = ((parameters.map (·.name)).zip filled).reverse ++ acc.bindings ∧
      ∀ (k : Nat) (q : TypeParameter), parameters[k]? = some q →
        filled[k]? = (arguments[k]? <|> q.fallback) := by
  induction parameters generalizing arguments acc with
  | nil =>
    obtain rfl : acc = i := by simpa [bindAll] using h
    exact ⟨[], rfl, by simp, by simp, by simp⟩
  | cons p ps ih =>
    rw [bindAll] at h
    cases hfirst : (arguments.head? <|> p.fallback) with
    | none => simp [hfirst] at h
    | some t =>
      rw [hfirst] at h
      obtain ⟨filled, hlength, harguments, hbindings, hfilled⟩ := ih h
      refine ⟨t :: filled, by simp [hlength], by simp [harguments],
        by simp [hbindings, Bindings.bind], ?_⟩
      intro k q hq
      cases k with
      | zero =>
        obtain rfl : p = q := by simpa using hq
        rw [List.head?_eq_getElem?] at hfirst
        exact hfirst.symm
      | succ k =>
        have hrest := hfilled k q (by simpa using hq)
        rw [List.getElem?_tail] at hrest
        simpa using hrest

theorem of_ok (h : Instance.of name parameters arguments = .ok i) :
    i.arguments.length = parameters.length ∧
      i.bindings = i.earlier parameters parameters.length ∧
      ∀ (k : Nat) (q : TypeParameter), parameters[k]? = some q →
        i.arguments[k]? = (arguments[k]? <|> q.fallback) := by
  rw [Instance.of] at h
  split at h
  · cases h
  · obtain ⟨filled, hlength, harguments, hbindings, hfilled⟩ := bindAll_ok h
    obtain rfl : i.arguments = filled := by simpa using harguments
    exact ⟨hlength, by simpa [earlier] using hbindings, hfilled⟩

theorem find?_of_ok (h : Instance.of name parameters arguments = .ok i) {q : TypeParameter}
    (hq : q ∈ parameters) : ∃ t, i.bindings.find? q.name = some t := by
  obtain ⟨hlength, hbindings, -⟩ := of_ok h
  have hname : q.name ∈ OrderedMap.keys i.bindings := by
    rw [hbindings, earlier, List.take_length, OrderedMap.keys, List.map_reverse, List.mem_reverse,
      List.map_fst_zip (by simp [hlength])]
    exact List.mem_map_of_mem hq
  rw [Bindings.find?_eq]
  exact Option.isSome_iff_exists.mp (OrderedMap.find?_isSome_iff.mpr hname)

theorem source_of_find? (h : Instance.of name parameters arguments = .ok i) {other : String}
    {t : TypeNode} (hfind : i.bindings.find? other = some t) :
    t ∈ arguments ∨
      ∃ q ∈ parameters.drop arguments.length, q.name = other ∧ q.fallback = some t := by
  obtain ⟨hlength, hbindings, hfilled⟩ := of_ok h
  rw [Bindings.find?_eq] at hfind
  have hmem := OrderedMap.mem_of_find?_eq_some hfind
  rw [hbindings, earlier, List.take_length, List.mem_reverse] at hmem
  obtain ⟨k, hk⟩ := List.getElem?_of_mem hmem
  obtain ⟨hname, ht⟩ := List.getElem?_zip_eq_some.mp hk
  rw [List.getElem?_map, Option.map_eq_some_iff] at hname
  obtain ⟨q, hq, rfl⟩ := hname
  rw [hfilled k q hq] at ht
  cases harg : arguments[k]? with
  | some u =>
    obtain rfl : u = t := by simpa [harg] using ht
    exact .inl (List.mem_of_getElem? harg)
  | none =>
    have hdefault : q.fallback = some t := by simpa [harg] using ht
    have hbeyond : arguments.length ≤ k := List.getElem?_eq_none_iff.mp harg
    refine .inr ⟨q, List.mem_of_getElem? (i := k - arguments.length) ?_, rfl, hdefault⟩
    rw [List.getElem?_drop, Nat.add_sub_cancel' hbeyond]
    exact hq

theorem names_substitute (h : Instance.of name parameters arguments = .ok i) {q : TypeParameter}
    (hq : q ∈ parameters) {node : TypeNode} :
    (node.substitute i.bindings).Names q.name ↔
      ∃ other t, node.Names other ∧ i.bindings.find? other = some t ∧ t.Names q.name := by
  rw [TypeNode.names_substitute]
  constructor
  · rintro ⟨other, hother, hname⟩
    cases hfind : i.bindings.find? other with
    | some t =>
      rw [Bindings.lookup_of_find? hfind] at hname
      exact ⟨other, t, hother, hfind, hname⟩
    | none =>
      -- A name that is not bound is kept, and is not that of a parameter.
      obtain rfl : other = q.name := by simpa [Bindings.lookup, hfind] using hname
      obtain ⟨t, ht⟩ := find?_of_ok h hq
      rw [hfind] at ht
      cases ht
  · rintro ⟨other, t, hother, hfind, hname⟩
    exact ⟨other, hother, (Bindings.lookup_of_find? hfind).symm ▸ hname⟩

end Instance

/-! ## What a declaration says with its parameters -/

/-- The types of the properties, of the index and of the bases, or what an alias stands for. -/
def Declaration.nodes : Declaration → List TypeNode
  | ofClass c => c.properties.filterMap (·.type) ++ c.base.toList
  | ofInterface d => d.properties.filterMap (·.type) ++ d.index.toList ++ d.bases
  | ofAlias a => [a.value]
  | ofEnum _ => []

namespace Resolver

/-- The types of the members, of the index and of the bases. -/
def Blueprint.nodes (b : Blueprint) : List TypeNode :=
  b.members.filterMap (·.type) ++ b.index.toList ++ b.bases

/-- The types that are resolved to carry out the plan. -/
def Plan.nodes : Plan → List TypeNode
  | same node | list node => [node]
  | define _ b => b.nodes
  | answer _ | register _ => []

theorem Blueprint.nodes_ofInterface (decl : InterfaceDecl) (b : Bindings) :
    (ofInterface decl b).nodes =
      (Declaration.ofInterface decl).nodes.map (TypeNode.substitute b) := by
  rw [nodes, ofInterface, TypeNode.types_substitute, Option.toList_map, Declaration.nodes,
    List.map_append, List.map_append]

theorem Blueprint.nodes_ofClass (decl : ClassDecl) (b : Bindings) :
    (ofClass decl b).nodes = (Declaration.ofClass decl).nodes.map (TypeNode.substitute b) := by
  rw [nodes, ofClass, TypeNode.types_substitute, Option.toList_none, List.append_nil,
    Declaration.nodes, List.map_append]

theorem names_ofDeclaration {d : Declaration} {arguments : List TypeNode} {i : Instance}
    (h : Instance.of d.name d.typeParameters arguments = .ok i) (ctx : ResolveContext)
    (name : String) :
    (∃ node ∈ (Plan.ofDeclaration arguments ctx d).nodes, node.Names name) ↔
      ∃ node ∈ d.nodes, (node.substitute i.bindings).Names name := by
  cases d with
  | ofEnum decl =>
    simp only [Plan.ofDeclaration]
    cases enumValues decl.name decl.members .zero with
    | error e => simp [Plan.nodes, Declaration.nodes]
    | ok values => cases ctx.extractEnum <;> simp [Plan.nodes, Declaration.nodes]
  | ofInterface decl =>
    simp only [Declaration.name, Declaration.typeParameters] at h
    simp only [Plan.ofDeclaration, Plan.ofInstance, h, Plan.nodes, Blueprint.nodes_ofInterface]
    simp only [List.mem_map, exists_exists_and_eq_and]
  | ofClass decl =>
    simp only [Declaration.name, Declaration.typeParameters] at h
    simp only [Plan.ofDeclaration, Plan.ofInstance, h, Plan.nodes, Blueprint.nodes_ofClass]
    simp only [List.mem_map, exists_exists_and_eq_and]
  | ofAlias decl =>
    simp only [Declaration.name, Declaration.typeParameters] at h
    simp only [Plan.ofDeclaration, Plan.ofInstance, h]
    cases hvalue : decl.value.substitute i.bindings with
    | object members index =>
      have hne : ∀ n, TypeNode.object members index ≠ .named n := by simp [TypeNode.named]
      simp [Declaration.nodes, hvalue, Plan.nodes, Blueprint.nodes, Blueprint.ofAlias,
        TypeNode.names_iff_of_ne hne, TypeNode.parts]
    | _ => simp [Declaration.nodes, hvalue, Plan.nodes]

end Resolver

open Resolver

/-- Each parameter is bound to its argument or, where there is none, to its default as written. This
is the default with the parameters before it replaced exactly when each name in it stands for
itself. A parameter is left over exactly where the declaration names a parameter that is bound to a
type with that name in it, which is one of the arguments or the default of a missing one. -/
theorem defaults_are_bound_as_written {d : Declaration} {arguments : List TypeNode} {i : Instance}
    (h : Instance.of d.name d.typeParameters arguments = .ok i) :
    (i.bindings = i.earlier d.typeParameters d.typeParameters.length ∧
      ∀ (k : Nat) (q : TypeParameter), d.typeParameters[k]? = some q →
        i.arguments[k]? = (arguments[k]? <|> q.fallback)) ∧
    (∀ (k : Nat) (q : TypeParameter) (t : TypeNode), d.typeParameters[k]? = some q →
      arguments[k]? = none → q.fallback = some t →
      (i.arguments[k]? = some (t.substitute (i.earlier d.typeParameters k)) ↔
        ∀ n, t.Names n → (i.earlier d.typeParameters k).lookup n = .named n)) ∧
    ∀ ctx, ∀ q ∈ d.typeParameters,
      ((∃ node ∈ (Plan.ofDeclaration arguments ctx d).nodes, node.Names q.name) ↔
        ∃ node ∈ d.nodes, ∃ other t, node.Names other ∧ i.bindings.find? other = some t ∧
          t.Names q.name ∧ (t ∈ arguments ∨
            ∃ q' ∈ d.typeParameters.drop arguments.length, q'.name = other ∧
              q'.fallback = some t)) := by
  obtain ⟨-, hbindings, hfilled⟩ := Instance.of_ok h
  refine ⟨⟨hbindings, hfilled⟩, ?_, ?_⟩
  · intro k q t hq hmissing hdefault
    have hwritten : i.arguments[k]? = some t := by simp [hfilled k q hq, hmissing, hdefault]
    rw [hwritten, Option.some.injEq, eq_comm]
    exact TypeNode.substitute_eq_self_iff
  · intro ctx q hq
    rw [names_ofDeclaration h ctx q.name]
    refine exists_congr fun node => and_congr_right fun _ => ?_
    rw [Instance.names_substitute h hq]
    refine exists_congr fun other => exists_congr fun t => and_congr_right fun _ => ?_
    exact and_congr_right fun hfind => (and_iff_left (Instance.source_of_find? h hfind)).symm

/-- A page of items with a cursor to the next one, which is a string unless it is said to be
something else. -/
def Declaration.page : Declaration :=
  .ofInterface
    { name := "Page", doc := none
      typeParameters := [⟨"Item", none⟩, ⟨"Cursor", some (.keyword .string)⟩], bases := []
      properties := [.plain "items" (.array (.named "Item")), .plain "next" (.named "Cursor")]
      index := none }

theorem page_of_numbers_is_filled_in :
    ∃ i, Instance.of Declaration.page.name Declaration.page.typeParameters [.keyword .number] =
        .ok i ∧
      i.arguments[1]? = some ((TypeNode.keyword .string).substitute
        (i.earlier Declaration.page.typeParameters 1)) ∧
      ∀ ctx, ∀ q ∈ Declaration.page.typeParameters,
        ¬∃ node ∈ (Plan.ofDeclaration [.keyword .number] ctx .page).nodes, node.Names q.name := by
  obtain ⟨i, hi⟩ : ∃ i, Instance.of Declaration.page.name Declaration.page.typeParameters
      [.keyword .number] = .ok i := ⟨_, rfl⟩
  obtain ⟨-, hlaw, hleft⟩ := defaults_are_bound_as_written hi
  refine ⟨i, hi, ?_, ?_⟩
  · exact (hlaw 1 _ _ rfl rfl rfl).mpr fun n hn => absurd hn TypeNode.names_keyword
  · intro ctx q hq hremains
    obtain ⟨node, -, other, t, -, -, hname, hargument | ⟨q', hq', -, hdefault⟩⟩ :=
      (hleft ctx q hq).mp hremains
    · obtain rfl := List.mem_singleton.mp hargument
      exact TypeNode.names_keyword hname
    · obtain rfl := List.mem_singleton.mp hq'
      cases hdefault
      exact TypeNode.names_keyword hname

/-- An alias with a default that names the parameter before it. -/
def AliasDecl.many : AliasDecl :=
  { name := "Many", doc := none
    typeParameters := [⟨"T", none⟩, ⟨"U", some (.array (.named "T"))⟩], value := .named "U" }

def Program.many : Program :=
  { units := [{ path := "many.ts", imports := [], declarations := [.ofAlias .many] }] }

/-- The first argument does not reach the default: its parameter is left over, and is looked up as
if a type were declared under its name. -/
theorem many_strings_leave_parameter :
    ∃ i, Instance.of AliasDecl.many.name AliasDecl.many.typeParameters [.keyword .string] = .ok i ∧
      i.bindings.find? "U" = some (.array (.named "T")) ∧
      (TypeNode.array (.named "T")).substitute (i.earlier AliasDecl.many.typeParameters 1) =
        .array (.keyword .string) ∧
      (∃ node ∈ (Plan.ofDeclaration [.keyword .string] {} (.ofAlias .many)).nodes,
        node.Names "T") ∧
      (∀ t ∈ [TypeNode.keyword .string], ¬t.Names "T") ∧
      (resolve .many 20 (.reference "Many" [.keyword .string]) {}).runFrom {} =
        some (.error (.noModel "T"), {}) := by
  refine ⟨_, rfl, rfl, rfl, ⟨.array (.named "T"), List.mem_cons_self, ?_⟩, ?_, rfl⟩
  · exact .part List.mem_cons_self .self
  · intro t ht
    obtain rfl := List.mem_singleton.mp ht
    exact TypeNode.names_keyword

end DecoratedApi
