import Mathlib.Data.Finset.Card
import Mathlib.Order.WellFoundedSet
import DecoratedApi.Proofs.Declared
import DecoratedApi.Proofs.Parts

/-!
# Recursive types come to an end

An object type has its entry before its parts are resolved, so each name is built at most once,
however types mention and extend one another. Between two entries a call only goes from a type to
its parts, and from an alias to its value; it comes to an end when no alias leads back to itself.
-/

namespace DecoratedApi

open Resolve

/-! ## Computations that end -/

namespace Resolve

variable {α β : Type} {s : ResolverState}

/-- From some depth on the computation ends, and always in the same way. -/
def Settles (x : Nat → Resolve α) (s : ResolverState) : Prop :=
  ∃ depth out, ∀ depth' ≥ depth, (x depth').runFrom s = some out

theorem settles_of_runFrom {x : Nat → Resolve α} {out : Outcome α × ResolverState}
    (h : ∀ depth, (x depth).runFrom s = some out) : Settles x s :=
  ⟨0, out, fun depth _ => h depth⟩

theorem settles_ofOutcome (o : Outcome α) : Settles (fun _ => ofOutcome o) s :=
  settles_of_runFrom fun _ => runFrom_ofOutcome o s

theorem settles_pure (a : α) : Settles (fun _ => (pure a : Resolve α)) s :=
  settles_of_runFrom fun _ => runFrom_pure a s

theorem settles_of_succ {x : Nat → Resolve α} (h : Settles (fun depth => x (depth + 1)) s) :
    Settles x s := by
  obtain ⟨depth, out, hrun⟩ := h
  refine ⟨depth + 1, out, fun depth' hdepth => ?_⟩
  obtain ⟨n, rfl⟩ : ∃ n, depth' = n + 1 := ⟨depth' - 1, by omega⟩
  exact hrun n (by omega)

theorem Settles.bind {x : Nat → Resolve α} {f : Nat → α → Resolve β} (hx : Settles x s)
    (hf : ∀ depth a s', (x depth).runFrom s = some (.ok a, s') → Settles (fun n => f n a) s') :
    Settles (fun n => x n >>= f n) s := by
  obtain ⟨depth, ⟨r, s'⟩, hrun⟩ := hx
  cases r with
  | error e =>
    refine ⟨depth, (.error e, s'), fun depth' hdepth => ?_⟩
    rw [runFrom_bind, hrun depth' hdepth]
  | ok a =>
    obtain ⟨depth₁, out, hout⟩ := hf depth a s' (hrun depth (Nat.le_refl depth))
    refine ⟨max depth depth₁, out, fun depth' hdepth => ?_⟩
    rw [runFrom_bind, hrun depth' (by omega)]
    exact hout depth' (by omega)

end Resolve

namespace Resolver

variable {p : Program} {node : TypeNode} {ctx : ResolveContext} {s s' : ResolverState}

/-! ## Names that are left -/

/-- The declared names that have no entry yet. -/
def remaining (p : Program) (s : ResolverState) : Finset String :=
  (p.declarations.map (·.name)).toFinset.filter fun name => s.table.contains name = false

theorem mem_remaining {name : String} :
    name ∈ remaining p s ↔
      name ∈ p.declarations.map (·.name) ∧ s.table.contains name = false := by
  simp [remaining]

theorem remaining_subset (h : s.Grows s') : remaining p s' ⊆ remaining p s := by
  intro name hname
  obtain ⟨hdeclared, hnew⟩ := mem_remaining.mp hname
  exact mem_remaining.mpr ⟨hdeclared, h.not_contains hnew⟩

theorem remaining_opened {key : String} (hdeclared : key ∈ p.declarations.map (·.name))
    (hnew : s.table.contains key = false) : remaining p (s.opened key) ⊂ remaining p s := by
  refine (Finset.ssubset_iff_of_subset (remaining_subset (.opened hnew))).mpr
    ⟨key, mem_remaining.mpr ⟨hdeclared, hnew⟩, fun hmem => ?_⟩
  have hopened := (Building.opened hnew).contains
  rw [(mem_remaining.mp hmem).2] at hopened
  cases hopened

/-! ## Building a type -/

theorem takeOver_settles (d : ObjectDefinition) (t : ApiType) :
    Settles (fun _ => takeOver d t) s := by
  cases t with
  | refObject name =>
    cases hcomplete : s.table.isComplete name with
    | true => exact settles_of_runFrom fun _ => takeOver_complete hcomplete
    | false => exact settles_of_runFrom fun _ => takeOver_incomplete hcomplete
  | _ => exact settles_ofOutcome (.error _)

section Build

variable {names : Finset String}
variable (hcalls : ∀ u, remaining p u ⊆ names → ∀ node ctx,
  Settles (fun n => resolve p n node ctx) u)

include hcalls

theorem property_settles (flag : Bool) (m : PropertyDecl) (hs : remaining p s ⊆ names) :
    Settles (fun n => property (resolve p n) flag m) s := by
  refine (hcalls s hs _ _).bind fun _ type s₁ _ => ?_
  exact (settles_ofOutcome _).bind fun _ validators _ _ => settles_pure _

theorem properties_settles (flag : Bool) (ms : List PropertyDecl) (hs : remaining p s ⊆ names) :
    Settles (fun n => properties (resolve p n) flag ms) s := by
  induction ms generalizing s with
  | nil => exact settles_pure []
  | cons m rest ih =>
    refine (property_settles hcalls flag m hs).bind fun depth q s₁ hq => ?_
    obtain ⟨hadv, -⟩ := resolve_advances p depth _ _ _ _ _ (property_ok hq)
    refine (ih ((remaining_subset hadv.grows).trans hs)).bind fun _ qs s₂ _ => ?_
    exact settles_pure (q :: qs)

theorem additional_settles (index : Option TypeNode) (hs : remaining p s ⊆ names) :
    Settles (fun n => additional (resolve p n) index) s := by
  cases index with
  | none => exact settles_pure none
  | some node => exact (hcalls s hs node {}).bind fun _ t _ _ => settles_pure (some t)

theorem inheritAll_settles (d : ObjectDefinition) (bases : List TypeNode)
    (hs : remaining p s ⊆ names) : Settles (fun n => inheritAll (resolve p n) d bases) s := by
  induction bases generalizing d s with
  | nil => exact settles_pure d
  | cons base rest ih =>
    have hone : Settles (fun n => inheritOne (resolve p n) d base) s := by
      simp only [inheritOne_eq]
      exact (hcalls s hs base {}).bind fun _ t _ _ => takeOver_settles d t
    refine hone.bind fun depth d' s₂ hrun => ih d' ?_
    obtain ⟨name, s₁, hbase, hcase⟩ := inheritOne_ok hrun
    obtain ⟨hadv, -⟩ := resolve_advances p depth base {} s _ _ hbase
    have hs₁ : remaining p s₁ ⊆ names := (remaining_subset hadv.grows).trans hs
    -- A base that is postponed is noted beside the entries.
    rcases hcase with ⟨-, -, rfl⟩ | ⟨-, -, rfl⟩ <;> exact hs₁

theorem build_settles (b : Blueprint) (key : String) (hs : remaining p s ⊆ names) :
    Settles (fun n => b.build (resolve p n) key) s := by
  refine (properties_settles hcalls _ b.members hs).bind fun depth ps s₁ hps => ?_
  obtain ⟨hadv, -⟩ := properties_yields advances_invariant (resolve_advances p depth) _ _ _ _ _ hps
  have hs₁ := (remaining_subset hadv.grows).trans hs
  refine (additional_settles hcalls b.index hs₁).bind fun depth' extra s₂ hextra => ?_
  obtain ⟨hadv', -⟩ :=
    additional_yields advances_invariant (resolve_advances p depth') _ _ _ _ hextra
  exact inheritAll_settles hcalls _ b.bases ((remaining_subset hadv'.grows).trans hs₁)

end Build

theorem reference_settles {b : Blueprint} {key : String}
    (h : s.table.contains key = false →
      Settles (fun n => b.build (resolve p n) key) (s.opened key)) :
    Settles (fun n => reference key (b.build (resolve p n))) s := by
  cases hkey : s.table.contains key with
  | true => exact settles_of_runFrom fun _ => reference_known hkey
  | false =>
    obtain ⟨depth, ⟨r, u⟩, hrun⟩ := h hkey
    cases r with
    | ok d =>
      refine ⟨depth, (.ok (.refObject key), u.closed d), fun depth' hdepth => ?_⟩
      rw [reference_new hkey, hrun depth' hdepth]
    | error e =>
      refine ⟨depth, (.error e, u.abandoned), fun depth' hdepth => ?_⟩
      rw [reference_new hkey, hrun depth' hdepth]

end Resolver

/-! ## Aliases -/

/-- The type refers to this name, at any depth. Of a qualified name, the last segment counts. -/
def TypeNode.Mentions (node : TypeNode) (name : String) : Prop :=
  ∃ written arguments, Within (.reference written arguments) node ∧ Text.lastSegment written = name

namespace TypeNode

variable {part node : TypeNode} {name : String}

theorem Mentions.of_part (hpart : part ∈ node.parts) (h : part.Mentions name) :
    node.Mentions name := by
  obtain ⟨written, arguments, hwithin, hname⟩ := h
  exact ⟨written, arguments, .part hpart hwithin, hname⟩

theorem mentions_iff :
    node.Mentions name ↔
      (∃ written arguments, node = .reference written arguments ∧ Text.lastSegment written = name) ∨
        ∃ part ∈ node.parts, part.Mentions name := by
  constructor
  · rintro ⟨written, arguments, hwithin, hname⟩
    rcases within_iff.mp hwithin with rfl | ⟨part, hpart, hwithin⟩
    · exact .inl ⟨written, arguments, rfl, hname⟩
    · exact .inr ⟨part, hpart, written, arguments, hwithin, hname⟩
  · rintro (⟨written, arguments, rfl, hname⟩ | ⟨part, hpart, h⟩)
    · exact ⟨written, arguments, .self, hname⟩
    · exact h.of_part hpart

@[simp]
theorem mentions_named {written : String} :
    (named written).Mentions name ↔ Text.lastSegment written = name := by
  rw [mentions_iff]
  simp [named, parts]

@[simp]
theorem mentions_keyword {k : Keyword} : ¬(keyword k).Mentions name := by
  rw [mentions_iff]
  simp [parts]

@[simp]
theorem mentions_array {element : TypeNode} :
    (array element).Mentions name ↔ element.Mentions name := by
  rw [mentions_iff]
  simp [parts]

@[simp]
theorem mentions_union {members : List TypeNode} :
    (union members).Mentions name ↔ ∃ member ∈ members, member.Mentions name := by
  rw [mentions_iff]
  simp [parts]

end TypeNode

/-- The alias stands for its value, which is no object type. -/
def AliasDecl.IsTransparent (a : AliasDecl) : Prop :=
  ∀ members index, a.value ≠ .object members index

/-- Both are aliases of the program that stand for their values, and the value of the first mentions
the second. -/
structure Program.Unfolds (p : Program) (a b : AliasDecl) : Prop where
  declared : .ofAlias a ∈ p.declarations
  transparent : a.IsTransparent
  declared' : .ofAlias b ∈ p.declarations
  transparent' : b.IsTransparent
  mentions : a.value.Mentions b.name

theorem Program.unfolds_wellFoundedOn {p : Program}
    (h : ∀ a, ¬Relation.TransGen p.Unfolds a a) :
    {a | .ofAlias a ∈ p.declarations}.WellFoundedOn fun b a => Relation.TransGen p.Unfolds a b := by
  -- Finitely many aliases that do not lead back to themselves lead to an end.
  have hinjective : Function.Injective Declaration.ofAlias := fun _ _ heq => by simpa using heq
  have hfinite : {a | Declaration.ofAlias a ∈ p.declarations}.Finite :=
    (List.finite_toSet p.declarations).preimage hinjective.injOn
  have : IsStrictOrder AliasDecl fun b a => Relation.TransGen p.Unfolds a b :=
    { irrefl := h, trans := fun _ _ _ hab hbc => hbc.trans hab }
  exact hfinite.wellFoundedOn

namespace Resolver

variable {p : Program} {node node' : TypeNode} {ctx : ResolveContext} {s : ResolverState}

theorem declared_of_define (hp : p.IsPlain) {key : String} {b : Blueprint}
    (h : plan p node ctx = .define key b) : key ∈ p.declarations.map (·.name) := by
  have hname : (plan p node ctx).name? = some key := by rw [h, Plan.name?]
  rw [← plan_default hname] at hname
  obtain ⟨q, hq, hplan⟩ := refers_of_plan hname
  rw [← hplan] at hname
  have hkey := (plan_plain (hp _ hq.mem) hname).2
  rw [hq.find.2, or_self] at hkey
  rw [hkey]
  exact List.mem_map_of_mem hq.mem

theorem mem_parts_of_list (h : plan p node ctx = .list node') : node' ∈ node.parts := by
  obtain ⟨o, ho⟩ | ⟨part, hpart, hsame | hlist⟩ | ⟨name, arguments, d, -, -, hd⟩ :=
    plan_cases p node ctx
  · simp [ho] at h
  · simp [hsame] at h
  · obtain rfl : part = node' := by simpa [hlist] using h
    exact hpart
  · rw [hd] at h
    obtain ⟨o, ho⟩ | ⟨e, he, -⟩ | ⟨key, b, hb⟩ | ⟨a, i, -, -, -, ha⟩ :=
      ofDeclaration_cases arguments ctx d <;> simp_all

theorem same_cases (hp : p.IsPlain) (h : plan p node ctx = .same node') :
    node' ∈ node.parts ∨
      ∃ a, .ofAlias a ∈ p.declarations ∧ a.IsTransparent ∧ node.Mentions a.name ∧
        node' = a.value := by
  obtain ⟨o, ho⟩ | ⟨part, hpart, hsame | hlist⟩ | ⟨name, arguments, d, rfl, hfound, hd⟩ :=
    plan_cases p node ctx
  · simp [ho] at h
  · obtain rfl : part = node' := by simpa [hsame] using h
    exact .inl hpart
  · simp [hlist] at h
  · rw [hd] at h
    obtain ⟨hfind, hname⟩ := declarationOf_ok hfound
    have hmem : d ∈ p.declarations := by
      have hmem' : d ∈ p.find name := by simp [hfind]
      rw [p.find_eq] at hmem'
      exact (List.mem_filter.mp hmem').1
    obtain ⟨o, ho⟩ | ⟨e, he, -⟩ | ⟨key, b, hb⟩ | ⟨a, i, rfl, hi, hvalue, ha⟩ :=
      ofDeclaration_cases arguments ctx d
    · simp [ho] at h
    · simp [he] at h
    · simp [hb] at h
    · have hparameters : a.typeParameters = [] := hp _ hmem
      have hbindings : i.bindings = [] := by
        rw [hparameters, Instance.of] at hi
        split at hi
        · cases hi
        · cases hi
          rfl
      rw [hbindings, TypeNode.substitute_nil] at hvalue ha
      obtain rfl : a.value = node' := by simpa [ha] using h
      exact .inr ⟨a, hmem, hvalue, ⟨name, arguments, .self, hname.symm⟩, rfl⟩

theorem resolve_settles_of_aliases (hp : p.IsPlain)
    (hbuild : ∀ key ∈ p.declarations.map (·.name), s.table.contains key = false →
      ∀ b : Blueprint, Settles (fun n => b.build (resolve p n) key) (s.opened key))
    (halias : ∀ a, .ofAlias a ∈ p.declarations → a.IsTransparent → node.Mentions a.name →
      Settles (fun n => resolve p n a.value ctx) s) :
    Settles (fun n => resolve p n node ctx) s := by
  induction node using TypeNode.parts_induction with
  | h node ih =>
    have hpart : ∀ part ∈ node.parts, Settles (fun n => resolve p n part ctx) s := by
      intro part hmem
      refine ih part hmem fun a ha htransparent hmentions => ?_
      exact halias a ha htransparent (hmentions.of_part hmem)
    refine settles_of_succ ?_
    simp only [resolve_succ]
    cases hplan : plan p node ctx with
    | answer o => exact settles_ofOutcome o
    | same node' =>
      obtain hmem | ⟨a, ha, htransparent, hmentions, rfl⟩ := same_cases hp hplan
      · exact hpart node' hmem
      · exact halias a ha htransparent hmentions
    | list node' =>
      exact (hpart node' (mem_parts_of_list hplan)).bind fun _ t _ _ => settles_pure _
    | register d => exact settles_of_runFrom fun _ => registered_run d
    | define key b =>
      exact reference_settles fun hnew => hbuild key (declared_of_define hp hplan) hnew b

theorem resolve_settles (hp : p.IsPlain) (hacyclic : ∀ a, ¬Relation.TransGen p.Unfolds a a)
    (s : ResolverState) (node : TypeNode) (ctx : ResolveContext) :
    Settles (fun n => resolve p n node ctx) s := by
  generalize hnames : remaining p s = names
  induction names using Finset.strongInduction generalizing s node ctx with
  | H names ih =>
    subst hnames
    -- A type that is built has one name less to build.
    have hbuild : ∀ key ∈ p.declarations.map (·.name), s.table.contains key = false →
        ∀ b : Blueprint, Settles (fun n => b.build (resolve p n) key) (s.opened key) := by
      intro key hkey hnew b
      refine build_settles (fun u hu node ctx => ?_) b key (Finset.Subset.refl _)
      have hfewer := Finset.ssubset_of_subset_of_ssubset hu (remaining_opened hkey hnew)
      exact ih _ hfewer u node ctx rfl
    have halias : ∀ a, .ofAlias a ∈ p.declarations → a.IsTransparent →
        Settles (fun n => resolve p n a.value ctx) s := by
      intro a ha
      refine (p.unfolds_wellFoundedOn hacyclic).induction
        (P := fun a => a.IsTransparent → Settles (fun n => resolve p n a.value ctx) s) ha ?_
      intro a ha ih htransparent
      refine resolve_settles_of_aliases hp hbuild fun b hb htransparent' hmentions => ?_
      exact ih b hb (.single ⟨ha, htransparent, hb, htransparent', hmentions⟩) htransparent'
    exact resolve_settles_of_aliases hp hbuild fun a ha htransparent _ => halias a ha htransparent

end Resolver

open Resolver

/-- Where no declaration has type parameters, and no alias leads back to itself through the values
of aliases, every call comes to an end: an answer or an error, which is the same at all greater
depths. Object types may mention and extend one another and themselves. -/
theorem resolution_terminates {p : Program} (hp : p.IsPlain)
    (hacyclic : ∀ a, ¬Relation.TransGen p.Unfolds a a) (s : ResolverState) (node : TypeNode)
    (ctx : ResolveContext) :
    ∃ depth r s', ∀ depth' ≥ depth, (resolve p depth' node ctx).runFrom s = some (r, s') := by
  obtain ⟨depth, ⟨r, s'⟩, hrun⟩ := resolve_settles hp hacyclic s node ctx
  exact ⟨depth, r, s', hrun⟩

/-- Branches have twigs, which are branches or nothing; a list of twigs has a twig and a rest. -/
def Program.bushes : Program :=
  { units := [
      { path := "bushes.ts"
        imports := []
        declarations := [
          .plainInterface "Branch" [.named "Branch"] [.plain "twigs" (.named "Twigs")],
          .plainInterface "Thorn" [.named "Branch"] [.plain "bush" (.named "Rest")],
          .ofAlias
            { name := "Twig", doc := none, typeParameters := []
              value := .union [.named "Branch", .keyword .null] },
          .ofAlias
            { name := "Twigs", doc := none, typeParameters := [], value := .array (.named "Twig") },
          .ofAlias
            { name := "Rest", doc := none, typeParameters := []
              value := .object
                [PropertyDecl.plain "first" (.named "Twig"),
                  PropertyDecl.plain "rest" (.named "Rest")]
                none }] }] }

theorem Program.bushes_unfolds {a b : AliasDecl} (h : bushes.Unfolds a b) :
    a.name = "Twigs" ∧ b.name = "Twig" := by
  obtain ⟨ha, htransparent, hb, -, hmentions⟩ := h
  simp only [declarations, bushes, Declaration.plainInterface, List.flatMap_cons, List.flatMap_nil,
    List.append_nil, List.mem_cons, reduceCtorEq, Declaration.ofAlias.injEq, List.not_mem_nil,
    or_false, false_or] at ha hb
  rcases ha with rfl | rfl | rfl
  · have hbranch : Text.lastSegment "Branch" = b.name := by simpa using hmentions
    rcases hb with rfl | rfl | rfl <;> exact absurd hbranch (by decide)
  · have htwig : Text.lastSegment "Twig" = b.name := by simpa using hmentions
    exact ⟨rfl, htwig.symm⟩
  · exact absurd rfl (htransparent _ _)

theorem Program.bushes_acyclic (a : AliasDecl) : ¬Relation.TransGen bushes.Unfolds a a := by
  intro h
  have hnames : ∀ b, Relation.TransGen bushes.Unfolds a b → a.name = "Twigs" ∧ b.name = "Twig" := by
    intro b hb
    induction hb with
    | single hstep => exact bushes_unfolds hstep
    | tail _ hstep ih => exact ⟨ih.1, (bushes_unfolds hstep).2⟩
  obtain ⟨hfirst, hlast⟩ := hnames a h
  rw [hfirst] at hlast
  exact absurd hlast (by decide)

theorem bushes_terminate :
    Program.bushes.IsPlain ∧ (∀ a, ¬Relation.TransGen Program.bushes.Unfolds a a) ∧
      ∃ depth r s', ∀ depth' ≥ depth,
        (resolve .bushes depth' (.named "Thorn") {}).runFrom (.opened {} "Rest") = some (r, s') :=
  have hplain : Program.bushes.IsPlain := by decide
  ⟨hplain, Program.bushes_acyclic,
    resolution_terminates hplain Program.bushes_acyclic _ _ _⟩

end DecoratedApi
