import Mathlib.Data.List.TakeWhile
import DecoratedApi.Proofs.Calls
import DecoratedApi.Proofs.Depth
import DecoratedApi.Proofs.Lookup

/-!
# What a reference stands for

A type node that is answered by a name leads, through aliases, promises and unions with `null`, to
one declaration with its arguments. On a fresh resolver the definition under the name depends on
this declaration and these arguments alone.
-/

namespace DecoratedApi

theorem Text.lastSegment_lastSegment (name : String) :
    lastSegment (lastSegment name) = lastSegment name := by
  simp [lastSegment, lastSegmentOf, List.takeWhile_idem]

/-- The parameters of a declaration. Enums have none. -/
def Declaration.typeParameters : Declaration → List TypeParameter
  | ofClass c => c.typeParameters
  | ofInterface i => i.typeParameters
  | ofAlias a => a.typeParameters
  | ofEnum _ => []

/-- No declaration has parameters. -/
def Program.IsPlain (p : Program) : Prop := ∀ d ∈ p.declarations, d.typeParameters = []

instance (p : Program) : Decidable p.IsPlain :=
  inferInstanceAs (Decidable (∀ d ∈ p.declarations, d.typeParameters = []))

namespace Resolver

open Resolve

/-- A declaration, with the arguments that are written for its parameters. -/
structure Referent where
  declaration : Declaration
  arguments : List TypeNode

namespace Referent

/-- The plan for the declaration with its arguments. -/
def plan (q : Referent) : Plan := .ofDeclaration q.arguments {} q.declaration

end Referent

/-- The name that the plan puts into the table. -/
def Plan.name? : Plan → Option String
  | register d => some d.name
  | define key _ => some key
  | _ => none

/-- The node refers to the declaration, or another node that is resolved in its place does. -/
inductive Refers (p : Program) : TypeNode → Referent → Prop
  | here {name : String} {arguments : List TypeNode} {declaration : Declaration}
      (hbuiltin : builtin? name arguments {} = none)
      (hdeclaration : declarationOf p name = .ok declaration) :
      Refers p (.reference name arguments) ⟨declaration, arguments⟩
  | through {node node' : TypeNode} {q : Referent} (h : plan p node {} = .same node')
      (hq : Refers p node' q) : Refers p node q

variable {p : Program} {node : TypeNode} {q : Referent} {name : String}

theorem declarationOf_ok {declaration : Declaration} (h : declarationOf p name = .ok declaration) :
    p.find name = [declaration] ∧ declaration.name = Text.lastSegment name := by
  unfold declarationOf at h
  split at h
  · cases h
  · next d hd =>
    cases h
    refine ⟨hd, ?_⟩
    have hmem : declaration ∈ p.find name := by simp [hd]
    rw [p.find_eq] at hmem
    simpa using (List.mem_filter.mp hmem).2
  · cases h

theorem Refers.find (h : Refers p node q) :
    p.find q.declaration.name = [q.declaration] ∧
      Text.lastSegment q.declaration.name = q.declaration.name := by
  induction h with
  | @here name arguments declaration hbuiltin hdeclaration =>
    obtain ⟨hfind, hname⟩ := declarationOf_ok hdeclaration
    simp only [hname, Text.lastSegment_lastSegment, and_true]
    simpa [Program.find_eq, Text.lastSegment_lastSegment] using hfind
  | through h hq ih => exact ih

theorem Refers.mem (h : Refers p node q) : q.declaration ∈ p.declarations := by
  have hfind : q.declaration ∈ p.find q.declaration.name := by
    rw [h.find.1]
    exact List.mem_cons_self
  rw [p.find_eq] at hfind
  exact (List.mem_filter.mp hfind).1

theorem refers_of_plan (h : (plan p node {}).name? = some name) :
    ∃ q, Refers p node q ∧ q.plan = plan p node {} := by
  cases node with
  | reference n arguments =>
    simp only [plan, Plan.ofName] at h ⊢
    split at h
    · cases h
    · cases h
    · cases h
    · next hbuiltin =>
      split at h
      · next declaration hdeclaration =>
        exact ⟨⟨declaration, arguments⟩, .here hbuiltin hdeclaration, rfl⟩
      · cases h
  | union members =>
    simp only [plan, Plan.ofUnion] at h
    split at h
    · cases h
    · cases h
    · split at h <;> cases h
  | _ => cases h

/-! ## The definition that a blueprint gives -/

/-- Built alone, the blueprint has this definition in the end. -/
def Blueprint.Gives (p : Program) (name : String) (b : Blueprint) (o : ObjectDefinition) : Prop :=
  ∃ depth d s defs,
    (b.build (resolve p depth) name).runFrom (.opened {} name) = some (.ok d, s) ∧
    finish (s.closed d) = .ok defs ∧ OrderedMap.find? name defs = some (.object o)

theorem Blueprint.Gives.unique {b : Blueprint} {o o' : ObjectDefinition} (h : b.Gives p name o)
    (h' : b.Gives p name o') : o = o' := by
  obtain ⟨depth, d, s, defs, hbuild, hfinish, ho⟩ := h
  obtain ⟨depth', d', s', defs', hbuild', hfinish', ho'⟩ := h'
  -- Both were built the same way at the greater of the two depths.
  have hmax := build_below (resolve_below p (Nat.le_max_left depth depth')) b name _ _ hbuild
  have hmax' := build_below (resolve_below p (Nat.le_max_right depth depth')) b name _ _ hbuild'
  obtain ⟨rfl, rfl⟩ : d = d' ∧ s = s' := by simpa [hmax] using hmax'
  obtain rfl : defs = defs' := by simpa [hfinish] using hfinish'
  simpa [ho] using ho'

theorem Blueprint.gives_iff {b₁ b₂ : Blueprint} {o₁ o₂ : ObjectDefinition}
    (h₁ : b₁.Gives p name o₁) (h₂ : b₂.Gives p name o₂) :
    (∀ o, b₁.Gives p name o ↔ b₂.Gives p name o) ↔ o₁ = o₂ := by
  constructor
  · intro h
    exact ((h o₁).mp h₁).unique h₂
  · rintro rfl o
    constructor
    · intro h
      rwa [h.unique h₁]
    · intro h
      rwa [h.unique h₂]

/-! ## Calls of a fresh resolver -/

theorem resolve_fresh_cases {depth : Nat} {t : ApiType} {s : ResolverState}
    (h : (resolve p depth node {}).runFrom {} = some (.ok t, s)) (hname : t.refName? = some name) :
    ∃ q, Refers p node q ∧
      ((∃ d, q.plan = .register d ∧ d.name = name ∧ t = .refEnum name ∧ s = .enrolled {} d) ∨
        ∃ b depth' d u, q.plan = .define name b ∧ t = .refObject name ∧ s = u.closed d ∧
          (b.build (resolve p depth') name).runFrom (.opened {} name) = some (.ok d, u)) := by
  induction depth generalizing node with
  | zero => simp [resolve_zero] at h
  | succ depth ih =>
    rw [resolve_succ] at h
    cases hplan : plan p node {} with
    | answer o =>
      rw [hplan] at h
      obtain ⟨rfl, rfl⟩ : o = .ok t ∧ {} = s := by simpa [Plan.run] using h
      have hnone := plan_mentioned? hplan
      cases t <;> simp_all [ApiType.refName?, ApiType.mentioned?]
    | same node' =>
      rw [hplan] at h
      obtain ⟨q, hq, hcases⟩ := ih h
      exact ⟨q, .through hplan hq, hcases⟩
    | list node' =>
      rw [hplan] at h
      obtain ⟨t', s', -, hpure⟩ := runFrom_bind_ok.mp h
      cases hpure
      cases hname
    | register d =>
      have hput : (plan p node {}).name? = some d.name := by rw [hplan, Plan.name?]
      obtain ⟨q, hq, hplan'⟩ := refers_of_plan hput
      rw [hplan, Plan.run, registered_run] at h
      cases h
      obtain rfl : d.name = name := by simpa [ApiType.refName?] using hname
      exact ⟨q, hq, .inl ⟨d, by rw [hplan', hplan], rfl, rfl, rfl⟩⟩
    | define key b =>
      have hput : (plan p node {}).name? = some key := by rw [hplan, Plan.name?]
      obtain ⟨q, hq, hplan'⟩ := refers_of_plan hput
      rw [hplan, Plan.run, reference_new rfl] at h
      split at h
      · cases h
      · next d u hbuild =>
        cases h
        obtain rfl : key = name := by simpa [ApiType.refName?] using hname
        exact ⟨q, hq, .inr ⟨b, depth, d, u, by rw [hplan', hplan], rfl, rfl, hbuild⟩⟩
      · cases h

/-- The node is the only one that the resolver is asked for. -/
def Alone (p : Program) (node : TypeNode) (t : ApiType) (defs : OrderedMap Definition) : Prop :=
  ∃ depth s, (resolve p depth node {}).runFrom {} = some (.ok t, s) ∧ finish s = .ok defs

/-- The answer and the definition that the declaration has under the name. -/
def Referent.Shows (p : Program) (name : String) (q : Referent) (t : ApiType) (x : Definition) :
    Prop :=
  (∃ d, q.plan = .register d ∧ d.name = name ∧ t = .refEnum name ∧ x = .enum d) ∨
    ∃ b o, q.plan = .define name b ∧ t = .refObject name ∧ b.Gives p name o ∧ x = .object o

theorem Referent.Shows.name? {t : ApiType} {x : Definition} (h : q.Shows p name t x) :
    q.plan.name? = some name := by
  obtain ⟨d, hplan, rfl, -, -⟩ | ⟨b, o, hplan, -, -, -⟩ := h
  · rw [hplan, Plan.name?]
  · rw [hplan, Plan.name?]

theorem Referent.Shows.gives {t : ApiType} {x : Definition} {b : Blueprint}
    (h : q.Shows p name t x) (hplan : q.plan = .define name b) : ∃ o, b.Gives p name o := by
  obtain ⟨d, hd, -⟩ | ⟨b', o, hb', -, hgives, -⟩ := h
  · rw [hplan] at hd
    cases hd
  · obtain rfl : b = b' := by simpa [hplan] using hb'
    exact ⟨o, hgives⟩

theorem alone_shows {t : ApiType} {defs : OrderedMap Definition} (h : Alone p node t defs)
    (hname : t.refName? = some name) :
    ∃ q x, Refers p node q ∧ q.Shows p name t x ∧ OrderedMap.find? name defs = some x := by
  obtain ⟨depth, s, hrun, hfinish⟩ := h
  obtain ⟨t', hall, hdefs⟩ := finish_ok.mp hfinish
  obtain ⟨q, hq, hcases⟩ := resolve_fresh_cases hrun hname
  obtain ⟨d, hplan, rfl, ht, rfl⟩ | ⟨b, depth', d, u, hplan, ht, rfl, hbuild⟩ := hcases
  · refine ⟨q, .enum d, hq, .inl ⟨d, hplan, rfl, ht, rfl⟩, ?_⟩
    rw [ReferenceTable.find?_definitions hdefs, ReferenceTable.get?_eq_some_iff,
      Deferred.runAll_slot? hall (by simp [ResolverState.enrolled]), ResolverState.slot?_enrolled]
  · -- The entry is an object when it is closed, and deferred work keeps it one.
    obtain ⟨-, rfl, -⟩ := build_takesOver (resolve_advances p depth')
      (Building.opened (s := {}) rfl).slot hbuild
    obtain ⟨o, ho⟩ := (Deferred.runAll_sameKinds hall).object d.name d (u.slot?_closed d)
    have hfind : OrderedMap.find? d.name defs = some (.object o) := by
      rw [ReferenceTable.find?_definitions hdefs, ReferenceTable.get?_eq_some_iff, ho]
    have hgives : b.Gives p d.name o := ⟨depth', d, u, defs, hbuild, hfinish, hfind⟩
    exact ⟨q, .object o, hq, .inr ⟨b, o, hplan, ht, hgives, rfl⟩, hfind⟩

end Resolver
end DecoratedApi
