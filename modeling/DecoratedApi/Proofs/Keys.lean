import Mathlib.Data.List.Forall2
import DecoratedApi.Proofs.Referent
import DecoratedApi.Proofs.Session

/-!
# Names and definitions

The name of an instance joins the name of its declaration and the fragments of its arguments, and
different instances may be joined to one name. Two references with one name have the same definition
exactly when their declarations, with their arguments, give the same; ordinary declarations always
do.
-/

namespace DecoratedApi

open Resolve

namespace Resolver

variable {p : Program} {node node₁ node₂ : TypeNode} {q q₁ q₂ : Referent} {name : String}

/-! ## Types without bases -/

/-- The member is this property. The state in which its type is resolved does not matter. -/
def Becomes (p : Program) (initializedIsOptional : Bool) (m : PropertyDecl) (x : Property) : Prop :=
  ∃ depth s s',
    (property (resolve p depth) initializedIsOptional m).runFrom s = some (.ok x, s')

theorem becomes_rightUnique (flag : Bool) : Relator.RightUnique (Becomes p flag) := by
  rintro m x y ⟨depth, s, s', hx⟩ ⟨depth', u, u', hy⟩
  obtain ⟨t, s₁, ht, hx⟩ := runFrom_bind_ok.mp hx
  obtain ⟨t', u₁, ht', hy⟩ := runFrom_bind_ok.mp hy
  obtain rfl := resolve_answer_unique ht ht'
  obtain ⟨v, s₂, hv, hx⟩ := runFrom_bind_ok.mp hx
  obtain ⟨v', u₂, hv', hy⟩ := runFrom_bind_ok.mp hy
  simp only [runFrom_ofOutcome, Option.some.injEq, Prod.mk.injEq] at hv hv'
  obtain rfl : v = v' := Except.ok.inj (hv.1.symm.trans hv'.1)
  cases hx
  cases hy
  rfl

/-- The definition has what the blueprint declares itself, and nothing else. -/
structure Blueprint.Declares (p : Program) (name : String) (b : Blueprint)
    (d : ObjectDefinition) : Prop where
  name : d.name = name
  description : d.description = b.description
  members : List.Forall₂ (Becomes p b.initializedIsOptional) b.members d.properties
  index : Option.Rel
    (fun node t => ∃ depth s s', (resolve p depth node {}).runFrom s = some (.ok t, s'))
    b.index d.additional

namespace Blueprint

variable {b b₁ b₂ : Blueprint} {d d' o : ObjectDefinition}

theorem Declares.unique (h : b.Declares p name d) (h' : b.Declares p name d') : d = d' := by
  obtain ⟨n, description, xs, extra⟩ := d
  obtain ⟨n', description', xs', extra'⟩ := d'
  obtain ⟨hname, hdescription, hmembers, hindex⟩ := h
  obtain ⟨hname', hdescription', hmembers', hindex'⟩ := h'
  obtain rfl : n = n' := hname.trans hname'.symm
  obtain rfl : description = description' := hdescription.trans hdescription'.symm
  obtain rfl : xs = xs' := (becomes_rightUnique _).forall₂ hmembers hmembers'
  obtain rfl : extra = extra' := by
    generalize b.index = index at hindex hindex'
    cases hindex with
    | none => cases hindex' with | none => rfl
    | some ht =>
      cases hindex' with
      | some ht' =>
        obtain ⟨depth, s, s', ht⟩ := ht
        obtain ⟨depth', u, u', ht'⟩ := ht'
        rw [resolve_answer_unique ht ht']
  rfl

theorem properties_becomes {depth : Nat} {flag : Bool} {ms : List PropertyDecl} {xs : List Property}
    {s s' : ResolverState}
    (h : (properties (resolve p depth) flag ms).runFrom s = some (.ok xs, s')) :
    List.Forall₂ (Becomes p flag) ms xs := by
  induction ms generalizing s xs with
  | nil =>
    cases h
    exact .nil
  | cons m rest ih =>
    obtain ⟨x, s₁, hx, hmore⟩ := runFrom_bind_ok.mp h
    obtain ⟨xs', s₂, hxs, hpure⟩ := runFrom_bind_ok.mp hmore
    cases hpure
    exact .cons ⟨depth, s, s₁, hx⟩ (ih hxs)

theorem declares_own {depth : Nat} {xs : List Property} {extra : Option ApiType}
    {s s₁ s₂ : ResolverState}
    (hxs : (properties (resolve p depth) b.initializedIsOptional b.members).runFrom s =
      some (.ok xs, s₁))
    (hextra : (additional (resolve p depth) b.index).runFrom s₁ = some (.ok extra, s₂)) :
    b.Declares p name (b.own name xs extra) := by
  refine ⟨rfl, rfl, properties_becomes hxs, ?_⟩
  simp only [own]
  cases hindex : b.index with
  | none =>
    rw [hindex] at hextra
    cases hextra
    exact .none
  | some node =>
    rw [hindex] at hextra
    obtain ⟨t, s₃, ht, hpure⟩ := runFrom_bind_ok.mp hextra
    cases hpure
    exact .some ⟨depth, s₁, _, ht⟩

theorem Gives.declares (h : b.Gives p name o) (hbases : b.bases = []) : b.Declares p name o := by
  obtain ⟨depth, d, s, defs, hbuild, hfinish, ho⟩ := h
  obtain ⟨xs, s₁, extra, s₂, hxs, hextra, hrest⟩ := build_ok.mp hbuild
  obtain ⟨rfl, rfl⟩ : b.own name xs extra = d ∧ s₂ = s := by
    simpa [hbases, inheritAll] using hrest
  have hself := resolve_advances p depth
  obtain ⟨hadv, -⟩ := properties_yields advances_invariant hself _ _ _ _ _ hxs
  obtain ⟨hadv', -⟩ := additional_yields advances_invariant hself _ _ _ _ hextra
  obtain ⟨t, hall, hdefs⟩ := finish_ok.mp hfinish
  -- The calls for the members postpone only types that they begin themselves.
  have hnone : ∀ x, .inherit name x ∉ s₂.deferred := by
    intro x hx
    obtain ⟨added, heq, hnew⟩ := (hadv.grows.trans hadv'.grows).deferred
    rw [heq] at hx
    have hopened : (ResolverState.opened {} name).table.contains name = false :=
      hnew name x (by simpa [ResolverState.opened] using hx)
    rw [(Building.opened (s := {}) rfl).contains] at hopened
    cases hopened
  obtain rfl : b.own name xs extra = o := by
    rw [ReferenceTable.find?_definitions hdefs, ReferenceTable.get?_eq_some_iff,
      Deferred.runAll_slot? hall hnone, ResolverState.closed, ReferenceTable.slot?_fill] at ho
    simpa [own] using ho
  exact declares_own hxs hextra

end Blueprint

/-! ## Declarations without parameters -/

theorem key_plain (n : String) : Instance.key ⟨[], []⟩ n = Text.lastSegment n := by
  simp [Instance.key, TypeNode.fragments]

theorem ofInstance_plain {n : String} {arguments : List TypeNode} {f : Instance → Plan}
    (h : (Plan.ofInstance n [] arguments f).name? = some name) :
    arguments = [] ∧ (f ⟨[], []⟩).name? = some name := by
  cases arguments with
  | nil => exact ⟨rfl, h⟩
  | cons a rest => simp [Plan.ofInstance, Instance.of, Plan.name?] at h

theorem plan_plain (hq : q.declaration.typeParameters = []) (hname : q.plan.name? = some name) :
    q.plan = Referent.plan ⟨q.declaration, []⟩ ∧
      (name = q.declaration.name ∨ name = Text.lastSegment q.declaration.name) := by
  obtain ⟨declaration, arguments⟩ := q
  cases declaration with
  | ofEnum decl =>
    refine ⟨rfl, .inl ?_⟩
    simp only [Referent.plan, Plan.ofDeclaration] at hname
    split at hname
    · simpa [Plan.name?, Declaration.name] using hname.symm
    · cases hname
  | ofAlias decl =>
    simp only [Declaration.typeParameters] at hq
    simp only [Referent.plan, Plan.ofDeclaration, hq] at hname ⊢
    obtain ⟨rfl, hput⟩ := ofInstance_plain hname
    refine ⟨rfl, .inr ?_⟩
    split at hput
    · simpa [Plan.name?, key_plain, Declaration.name] using hput.symm
    · cases hput
  | ofInterface decl =>
    simp only [Declaration.typeParameters] at hq
    simp only [Referent.plan, Plan.ofDeclaration, hq] at hname ⊢
    obtain ⟨rfl, hput⟩ := ofInstance_plain hname
    exact ⟨rfl, .inr (by simpa [Plan.name?, key_plain, Declaration.name] using hput.symm)⟩
  | ofClass decl =>
    simp only [Declaration.typeParameters] at hq
    simp only [Referent.plan, Plan.ofDeclaration, hq] at hname ⊢
    obtain ⟨rfl, hput⟩ := ofInstance_plain hname
    exact ⟨rfl, .inr (by simpa [Plan.name?, key_plain, Declaration.name] using hput.symm)⟩

theorem declaration_eq_of_name_eq (h₁ : Refers p node₁ q₁) (h₂ : Refers p node₂ q₂)
    (hname : q₁.declaration.name = q₂.declaration.name) : q₁.declaration = q₂.declaration := by
  have hfind := h₁.find.1
  rw [hname, h₂.find.1] at hfind
  exact (List.cons.inj hfind).1.symm

theorem plan_eq_of_plain (h₁ : Refers p node₁ q₁) (h₂ : Refers p node₂ q₂)
    (hq₁ : q₁.declaration.typeParameters = []) (hq₂ : q₂.declaration.typeParameters = [])
    (hname₁ : q₁.plan.name? = some name) (hname₂ : q₂.plan.name? = some name) :
    q₁.plan = q₂.plan := by
  obtain ⟨hplan₁, hn₁⟩ := plan_plain hq₁ hname₁
  obtain ⟨hplan₂, hn₂⟩ := plan_plain hq₂ hname₂
  rw [h₁.find.2, or_self] at hn₁
  rw [h₂.find.2, or_self] at hn₂
  rw [hplan₁, hplan₂, declaration_eq_of_name_eq h₁ h₂ (hn₁.symm.trans hn₂)]

theorem typeParameters_of_register {d : EnumDefinition} (h : q.plan = .register d) :
    q.declaration.typeParameters = [] := by
  obtain ⟨declaration, arguments⟩ := q
  cases declaration with
  | ofEnum decl => rfl
  | ofAlias decl =>
    simp only [Referent.plan, Plan.ofDeclaration, Plan.ofInstance] at h
    split at h
    · split at h <;> cases h
    · cases h
  | _ =>
    simp only [Referent.plan, Plan.ofDeclaration, Plan.ofInstance] at h
    split at h <;> cases h

/-! ## One name -/

/-- Both are enums, or both are object types with one definition. -/
def Referent.Agrees (p : Program) (name : String) (q₁ q₂ : Referent) : Prop :=
  match q₁.plan, q₂.plan with
  | .register _, .register _ => True
  | .define _ b₁, .define _ b₂ => ∀ o, b₁.Gives p name o ↔ b₂.Gives p name o
  | _, _ => False

theorem agrees_of_plan_eq {t : ApiType} {x : Definition} (h : q₁.Shows p name t x)
    (hplan : q₁.plan = q₂.plan) : q₁.Agrees p name q₂ := by
  unfold Referent.Agrees
  obtain ⟨d, hd, -⟩ | ⟨b, o, hb, -⟩ := h
  · rw [← hplan, hd]
    trivial
  · rw [← hplan, hb]
    exact fun _ => Iff.rfl

section Agrees

variable {t₁ t₂ : ApiType} {x₁ x₂ : Definition} (h₁ : q₁.Shows p name t₁ x₁)
variable (h₂ : q₂.Shows p name t₂ x₂)

include h₁ h₂

theorem agrees_iff (hq₁ : Refers p node₁ q₁) (hq₂ : Refers p node₂ q₂) :
    t₁ = t₂ ∧ x₁ = x₂ ↔ q₁.Agrees p name q₂ := by
  unfold Referent.Agrees
  obtain ⟨d₁, hplan₁, hd₁, rfl, rfl⟩ | ⟨b₁, o₁, hplan₁, rfl, hgives₁, rfl⟩ := h₁
  · obtain ⟨d₂, hplan₂, hd₂, rfl, rfl⟩ | ⟨b₂, o₂, hplan₂, rfl, hgives₂, rfl⟩ := h₂
    · -- Enums have no parameters, so two of one name are one declaration.
      have hput₁ : q₁.plan.name? = some name := by rw [hplan₁, Plan.name?, hd₁]
      have hput₂ : q₂.plan.name? = some name := by rw [hplan₂, Plan.name?, hd₂]
      have hplan := plan_eq_of_plain hq₁ hq₂ (typeParameters_of_register hplan₁)
        (typeParameters_of_register hplan₂) hput₁ hput₂
      obtain rfl : d₁ = d₂ := by simpa [hplan₁, hplan₂] using hplan
      simp [hplan₁, hplan₂]
    · simp [hplan₁, hplan₂]
  · obtain ⟨d₂, hplan₂, hd₂, rfl, rfl⟩ | ⟨b₂, o₂, hplan₂, rfl, hgives₂, rfl⟩ := h₂
    · simp [hplan₁, hplan₂]
    · simp only [hplan₁, hplan₂, true_and, Definition.object.injEq]
      exact (Blueprint.gives_iff hgives₁ hgives₂).symm

theorem agrees_iff_declares {b₁ b₂ : Blueprint} (hplan₁ : q₁.plan = .define name b₁)
    (hplan₂ : q₂.plan = .define name b₂) (hbases₁ : b₁.bases = []) (hbases₂ : b₂.bases = []) :
    q₁.Agrees p name q₂ ↔ ∃ d, b₁.Declares p name d ∧ b₂.Declares p name d := by
  obtain ⟨o₁, hgives₁⟩ := h₁.gives hplan₁
  obtain ⟨o₂, hgives₂⟩ := h₂.gives hplan₂
  have hdeclares₁ := hgives₁.declares hbases₁
  have hdeclares₂ := hgives₂.declares hbases₂
  simp only [Referent.Agrees, hplan₁, hplan₂]
  rw [Blueprint.gives_iff hgives₁ hgives₂]
  constructor
  · rintro rfl
    exact ⟨o₁, hdeclares₁, hdeclares₂⟩
  · rintro ⟨d, hd₁, hd₂⟩
    exact (hdeclares₁.unique hd₁).trans (hd₂.unique hdeclares₂)

end Agrees

end Resolver

open Resolver

/-- Two references with one name have one definition under it exactly when the declarations that they
stand for agree. -/
theorem shared_name_iff_agrees {p : Program} {node₁ node₂ : TypeNode} {t₁ t₂ : ApiType}
    {defs₁ defs₂ : OrderedMap Definition} {name : String}
    (h₁ : Alone p node₁ t₁ defs₁) (h₂ : Alone p node₂ t₂ defs₂)
    (hname₁ : t₁.refName? = some name) (hname₂ : t₂.refName? = some name) :
    ∃ q₁ q₂, Refers p node₁ q₁ ∧ Refers p node₂ q₂ ∧
      q₁.plan.name? = some name ∧ q₂.plan.name? = some name ∧
      (t₁ = t₂ ∧ OrderedMap.find? name defs₁ = OrderedMap.find? name defs₂ ↔
        q₁.Agrees p name q₂) ∧
      (q₁.plan = q₂.plan → q₁.Agrees p name q₂) ∧
      (q₁.declaration.typeParameters = [] → q₂.declaration.typeParameters = [] →
        q₁.plan = q₂.plan) ∧
      ∀ b₁ b₂, q₁.plan = .define name b₁ → q₂.plan = .define name b₂ → b₁.bases = [] →
        b₂.bases = [] →
        (q₁.Agrees p name q₂ ↔ ∃ d, b₁.Declares p name d ∧ b₂.Declares p name d) := by
  obtain ⟨q₁, x₁, hq₁, hshows₁, hfind₁⟩ := alone_shows h₁ hname₁
  obtain ⟨q₂, x₂, hq₂, hshows₂, hfind₂⟩ := alone_shows h₂ hname₂
  refine ⟨q₁, q₂, hq₁, hq₂, hshows₁.name?, hshows₂.name?, ?_, agrees_of_plan_eq hshows₁, ?_, ?_⟩
  · rw [hfind₁, hfind₂, Option.some.injEq]
    exact agrees_iff hshows₁ hshows₂ hq₁ hq₂
  · intro hplain₁ hplain₂
    exact plan_eq_of_plain hq₁ hq₂ hplain₁ hplain₂ hshows₁.name? hshows₂.name?
  · intro b₁ b₂ hplan₁ hplan₂ hbases₁ hbases₂
    exact agrees_iff_declares hshows₁ hshows₂ hplan₁ hplan₂ hbases₁ hbases₂

/-! ## Two programs -/

theorem Resolver.alone_of_concludes (p : Program) (depth : Nat) (node : TypeNode) (name : String)
    (check : Option Definition → Bool)
    (h : concludes p depth [(node, {})] (fun outcomes _ defs =>
      match outcomes with
      | [.ok t] => decide (t.refName? = some name) && check (OrderedMap.find? name defs)
      | _ => false) = true) :
    ∃ t defs, Alone p node t defs ∧ t.refName? = some name ∧
      check (OrderedMap.find? name defs) = true := by
  obtain ⟨outcomes, s, defs, hsession, hfinish, hcheck⟩ := concludes_iff.mp h
  obtain ⟨r, s', rs, hrun, hrest, rfl⟩ := resolveAll_cons.mp hsession
  obtain ⟨rfl, rfl⟩ : [] = rs ∧ s' = s := by simpa [resolveAll] using hrest
  cases r with
  | error e => cases hcheck
  | ok t =>
    simp only [Bool.and_eq_true, decide_eq_true_eq] at hcheck
    exact ⟨t, defs, ⟨depth, s', hrun, hfinish⟩, hcheck⟩

theorem Program.trees_isPlain : Program.trees.IsPlain := by decide

theorem trees_plain {node : TypeNode} {q : Referent} (h : Refers .trees node q) :
    q.declaration.typeParameters = [] := Program.trees_isPlain _ h.mem

theorem trees_leaf_is_one_type :
    ∃ t₁ t₂ defs₁ defs₂, Alone .trees (.named "Leaf") t₁ defs₁ ∧
      Alone .trees (.union [.reference "Promise" [.named "Leaf"], .keyword .null]) t₂ defs₂ ∧
      t₁.refName? = some "Leaf" ∧ t₂.refName? = some "Leaf" ∧ t₁ = t₂ ∧
      OrderedMap.find? "Leaf" defs₁ = OrderedMap.find? "Leaf" defs₂ := by
  obtain ⟨t₁, defs₁, h₁, hname₁, -⟩ :=
    alone_of_concludes .trees 20 (.named "Leaf") "Leaf" (fun _ => true) (by decide +kernel)
  obtain ⟨t₂, defs₂, h₂, hname₂, -⟩ :=
    alone_of_concludes .trees 20 (.union [.reference "Promise" [.named "Leaf"], .keyword .null])
      "Leaf" (fun _ => true) (by decide +kernel)
  obtain ⟨q₁, q₂, hq₁, hq₂, -, -, hiff, hsame, hplain, -⟩ :=
    shared_name_iff_agrees h₁ h₂ hname₁ hname₂
  obtain ⟨ht, hfind⟩ := hiff.mpr (hsame (hplain (trees_plain hq₁) (trees_plain hq₂)))
  exact ⟨t₁, t₂, defs₁, defs₂, h₁, h₂, hname₁, hname₂, ht, hfind⟩

/-- A type with one parameter, which is the type of its only property. -/
def Program.wrap : Program :=
  { units := [
      { path := "wrap.ts"
        imports := []
        declarations := [
          .ofInterface
            { name := "Wrap", doc := none, typeParameters := [⟨"T", none⟩], bases := []
              properties := [.plain "value" (.named "T")], index := none }] }] }

/-- Whether the definition is an object with a property that is a string. -/
def Definition.hasString (d : Definition) : Bool :=
  d.object?.any fun o => o.properties.any fun x => match x.type with
    | .string => true
    | _ => false

/-- The type `string` and the text `'string'` give one name to instances of one declaration, with
different definitions. -/
theorem wrap_shares_name :
    ∃ t₁ t₂ defs₁ defs₂,
      Alone .wrap (.reference "Wrap" [.keyword .string]) t₁ defs₁ ∧
      Alone .wrap (.reference "Wrap" [.literal (.string "string")]) t₂ defs₂ ∧
      t₁.refName? = some "Wrapstring" ∧ t₂.refName? = some "Wrapstring" ∧
      OrderedMap.find? "Wrapstring" defs₁ ≠ OrderedMap.find? "Wrapstring" defs₂ := by
  obtain ⟨t₁, defs₁, h₁, hname₁, hcheck₁⟩ :=
    alone_of_concludes .wrap 20 (.reference "Wrap" [.keyword .string]) "Wrapstring"
      (fun x => x.any (·.hasString)) (by decide +kernel)
  obtain ⟨t₂, defs₂, h₂, hname₂, hcheck₂⟩ :=
    alone_of_concludes .wrap 20 (.reference "Wrap" [.literal (.string "string")])
      "Wrapstring" (fun x => !x.any (·.hasString)) (by decide +kernel)
  refine ⟨t₁, t₂, defs₁, defs₂, h₁, h₂, hname₁, hname₂, fun heq => ?_⟩
  rw [heq] at hcheck₁
  simp [hcheck₁] at hcheck₂

end DecoratedApi
