import DecoratedApi.Proofs.Finish
import DecoratedApi.Proofs.Walk

/-!
# Sessions with a resolver

A resolver answers one call after the other, some of which may fail, and is then finished. The walk
over the controllers of a program is such a session in which no call has failed.
-/

namespace DecoratedApi

open Resolve

namespace Resolver

/-- The calls one after the other, with what each of them gave. -/
def resolveAll (p : Program) (depth : Nat) :
    List (TypeNode × ResolveContext) → ResolverState →
      Option (List (Outcome ApiType) × ResolverState)
  | [], s => some ([], s)
  | (node, ctx) :: rest, s =>
    match (resolve p depth node ctx).runFrom s with
    | none => none
    | some (r, s₁) => (resolveAll p depth rest s₁).map fun (rs, s₂) => (r :: rs, s₂)

theorem resolveAll_cons {p : Program} {depth : Nat} {node : TypeNode} {ctx : ResolveContext}
    {rest : List (TypeNode × ResolveContext)} {s s' : ResolverState}
    {outcomes : List (Outcome ApiType)} :
    resolveAll p depth ((node, ctx) :: rest) s = some (outcomes, s') ↔
      ∃ r s₁ rs, (resolve p depth node ctx).runFrom s = some (r, s₁) ∧
        resolveAll p depth rest s₁ = some (rs, s') ∧ outcomes = r :: rs := by
  simp only [resolveAll]
  cases (resolve p depth node ctx).runFrom s with
  | none => simp
  | some out =>
    obtain ⟨r, s₁⟩ := out
    simp only [Option.map_eq_some_iff, Prod.exists, Prod.mk.injEq, Option.some.injEq]
    constructor
    · rintro ⟨rs, s₂, hrest, rfl, rfl⟩
      exact ⟨r, s₁, rs, ⟨rfl, rfl⟩, hrest, rfl⟩
    · rintro ⟨r', s₁', rs, ⟨rfl, rfl⟩, hrest, rfl⟩
      exact ⟨rs, s', hrest, rfl, rfl⟩

variable {p : Program} {depth : Nat}

theorem resolveAll_advances {calls : List (TypeNode × ResolveContext)} {s s' : ResolverState}
    {outcomes : List (Outcome ApiType)} (h : resolveAll p depth calls s = some (outcomes, s')) :
    s.Grows s' ∧ (s.WellFormed → s'.WellFormed) ∧
      ((∀ r ∈ outcomes, r.isOk = true) → Advances true s s') := by
  induction calls generalizing s outcomes with
  | nil =>
    obtain ⟨rfl, rfl⟩ : [] = outcomes ∧ s = s' := by simpa [resolveAll] using h
    exact ⟨.refl s, id, fun _ => advances_invariant.refl _ _⟩
  | cons call rest ih =>
    obtain ⟨node, ctx⟩ := call
    obtain ⟨r, s₁, rs, hrun, hrest, rfl⟩ := resolveAll_cons.mp h
    obtain ⟨hadv, -⟩ := resolve_advances p depth node ctx s r s₁ hrun
    obtain ⟨hgrows, hwell, hok⟩ := ih hrest
    refine ⟨hadv.grows.trans hgrows, fun hs => hwell (hadv.wellFormed hs), fun hall => ?_⟩
    have hr : r.isOk = true := hall r List.mem_cons_self
    rw [hr] at hadv
    exact advances_invariant.trans hadv (hok fun r' hr' => hall r' (List.mem_cons_of_mem _ hr'))

/-- Whether a session comes to an end, is finished, and what it gave passes the check. -/
def concludes (p : Program) (depth : Nat) (calls : List (TypeNode × ResolveContext))
    (check : List (Outcome ApiType) → ResolverState → OrderedMap Definition → Bool) : Bool :=
  match resolveAll p depth calls {} with
  | none => false
  | some (outcomes, s) =>
    match finish s with
    | .error _ => false
    | .ok defs => check outcomes s defs

theorem concludes_iff {calls : List (TypeNode × ResolveContext)}
    {check : List (Outcome ApiType) → ResolverState → OrderedMap Definition → Bool} :
    concludes p depth calls check = true ↔
      ∃ outcomes s defs, resolveAll p depth calls {} = some (outcomes, s) ∧ finish s = .ok defs ∧
        check outcomes s defs = true := by
  unfold concludes
  constructor
  · intro h
    split at h
    · cases h
    · next outcomes s hsession =>
      split at h
      · cases h
      · next defs hfinish => exact ⟨outcomes, s, defs, hsession, hfinish, h⟩
  · rintro ⟨outcomes, s, defs, hsession, hfinish, h⟩
    simp only [hsession, hfinish, h]

theorem isPending_fresh (name : String) : ({} : ResolverState).table.isPending name = false := rfl

theorem not_pending_of_advances {s : ResolverState} (h : Advances true {} s) (name : String) :
    s.table.isPending name = false := by
  by_contra hne
  have := h.settled rfl name (by simpa using hne)
  rw [isPending_fresh] at this
  cases this

end Resolver

open Resolver

/-! ## The walk -/

namespace Program

variable {p : Program} {depth : Nat}

theorem generateControllers_advances {controllers : List Controller} {s s' : ResolverState}
    {cs : List (String × ClassDecl)}
    (h : (generateControllers (resolve p depth) cs).runFrom s = some (.ok controllers, s')) :
    Advances true s s' ∧ ∀ c ∈ controllers, ∀ t ∈ c.types, Known s' t := by
  have hobject : ∀ s, Known s .object := fun s name hname => by cases hname
  obtain ⟨hadv, hknown⟩ := generateControllers_yields advances_invariant hobject
    (resolve_advances p depth) cs s _ _ h
  exact ⟨hadv, hknown controllers rfl⟩

theorem metadataAt_ok {m : Metadata} :
    p.metadataAt depth = some (.ok m) ↔
      ∃ s, (generateControllers (resolve p depth) p.classes).runFrom {} =
        some (.ok m.controllers, s) ∧ finish s = .ok m.definitions := by
  unfold metadataAt
  constructor
  · intro h
    split at h
    · cases h
    · cases h
    · next controllers s hwalk =>
      split at h
      · next defs hdefs =>
        cases h
        exact ⟨s, hwalk, hdefs⟩
      · cases h
  · rintro ⟨s, hwalk, hdefs⟩
    simp only [hwalk, hdefs]

/-- Whether the metadata of a program is there and passes the check. -/
def generates (p : Program) (depth : Nat) (check : Metadata → Bool) : Bool :=
  match p.metadataAt depth with
  | none => false
  | some (.error _) => false
  | some (.ok m) => check m

theorem generates_iff {check : Metadata → Bool} :
    p.generates depth check = true ↔
      ∃ m, p.metadataAt depth = some (.ok m) ∧ check m = true := by
  unfold generates
  constructor
  · intro h
    split at h
    · cases h
    · cases h
    · next m hm => exact ⟨m, hm, h⟩
  · rintro ⟨m, hm, h⟩
    simp only [hm, h]

end Program

/-! ## A program with cycles -/

/-- A required property without a comment. -/
def PropertyDecl.plain (name : String) (type : TypeNode) : PropertyDecl :=
  { name, doc := none, type := some type, optional := false, initializer := none }

/-- An interface without parameters. -/
def Declaration.plainInterface (name : String) (bases : List TypeNode)
    (properties : List PropertyDecl) : Declaration :=
  .ofInterface { name, doc := none, typeParameters := [], bases, properties, index := none }

/-- Nodes have leaves and leaves are nodes; a controller gives the leaves. -/
def Program.trees : Program :=
  { units := [
      { path := "trees.ts"
        imports := []
        declarations := [
          .plainInterface "Node" []
            [.plain "leaves" (.array (.named "Leaf")), .plain "state" (.named "State")],
          .plainInterface "Leaf" [.named "Node"] [.plain "color" (.keyword .string)],
          .ofEnum { name := "State", doc := none, members := [⟨"on", none⟩, ⟨"off", none⟩] },
          .ofClass
            { name := "Trees", doc := none, decorators := [⟨"Route", [], [.string "trees"]⟩]
              typeParameters := [], base := none, properties := []
              methods := [
                { name := "leaves", doc := none, decorators := [⟨"Get", [], []⟩]
                  parameters := [], returns := []
                  returnType := some (.reference "Promise" [.array (.named "Leaf")]) }] }] }] }

/-- Work can be finished exactly when no placeholder is left, and only a failed call leaves one. So
once the walk over the controllers has succeeded there is metadata. -/
theorem finish_fails_only_on_placeholders (p : Program) (depth : Nat) :
    (∀ calls outcomes s, resolveAll p depth calls {} = some (outcomes, s) →
      ((∃ defs, finish s = .ok defs) ↔ ∀ name, s.table.isPending name = false) ∧
      ((∀ r ∈ outcomes, r.isOk = true) → ∀ name, s.table.isPending name = false)) ∧
    ∀ controllers s,
      (Program.generateControllers (resolve p depth) p.classes).runFrom {} =
        some (.ok controllers, s) →
      ∃ defs, finish s = .ok defs ∧
        p.metadataAt depth = some (.ok { controllers, definitions := defs }) := by
  constructor
  · intro calls outcomes s h
    obtain ⟨-, hwell, hok⟩ := resolveAll_advances h
    exact ⟨finish_isOk_iff (hwell .fresh), fun hall => not_pending_of_advances (hok hall)⟩
  · intro controllers s h
    obtain ⟨hadv, -⟩ := Program.generateControllers_advances h
    obtain ⟨defs, hdefs⟩ :=
      (finish_isOk_iff (hadv.wellFormed .fresh)).mpr (not_pending_of_advances hadv)
    exact ⟨defs, hdefs, Program.metadataAt_ok.mpr ⟨s, h, hdefs⟩⟩

theorem trees_finish :
    (∃ outcomes s,
      resolveAll .trees 20
          [(.named "Node", {}), (.named "Missing", {}), (.named "Leaf", {})] {} =
        some (outcomes, s) ∧
      ((∃ defs, finish s = .ok defs) ↔ ∀ name, s.table.isPending name = false)) ∧
    ∃ controllers defs,
      Program.trees.metadataAt 20 = some (.ok { controllers, definitions := defs }) := by
  constructor
  · have hrun : (resolveAll .trees 20
        [(.named "Node", {}), (.named "Missing", {}), (.named "Leaf", {})] {}).isSome = true := by
      decide +kernel
    obtain ⟨⟨outcomes, s⟩, h⟩ := Option.isSome_iff_exists.mp hrun
    exact ⟨outcomes, s, h,
      ((finish_fails_only_on_placeholders .trees 20).1 _ outcomes s h).1⟩
  · have hwalk : ∃ controllers s,
        (Program.generateControllers (resolve .trees 20) Program.trees.classes).runFrom {} =
          some (.ok controllers, s) := by
      have hok : ((Program.generateControllers (resolve .trees 20)
          Program.trees.classes).runFrom {}).any (·.1.isOk) = true := by decide +kernel
      obtain ⟨⟨r, s⟩, h, hr⟩ := (Option.any_eq_true _ _).mp hok
      cases r with
      | error e => cases hr
      | ok controllers => exact ⟨controllers, s, h⟩
    obtain ⟨controllers, s, h⟩ := hwalk
    obtain ⟨defs, -, hmeta⟩ := (finish_fails_only_on_placeholders .trees 20).2 controllers s h
    exact ⟨controllers, defs, hmeta⟩

end DecoratedApi
