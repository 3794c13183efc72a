import DecoratedApi.Proofs.Keys

/-!
# What a name is declared as

In a program without type parameters a name stands for one declaration, from wherever it is met. So
the program alone tells what an object type has of its own and which bases it lists. When the bases
do not lead back to the type, it also tells what the type is with all that it inherits.
-/

namespace DecoratedApi

/-! ## Definitions that begin alike -/

namespace ObjectDefinition

variable {d d' own : ObjectDefinition}

/-- The definition has what `own` has, in its place, and perhaps more behind it. -/
structure Extends (d own : ObjectDefinition) : Prop where
  name : d.name = own.name
  description : d.description = own.description
  properties : own.properties <+: d.properties
  additional : ∀ t, own.additional = some t → d.additional = some t

theorem Extends.refl (d : ObjectDefinition) : d.Extends d :=
  ⟨rfl, rfl, List.prefix_rfl, fun _ h => h⟩

theorem Extends.trans (h : d'.Extends d) (h' : d.Extends own) : d'.Extends own where
  name := h.name.trans h'.name
  description := h.description.trans h'.description
  properties := h'.properties.trans h.properties
  additional := fun t ht => h.additional t (h'.additional t ht)

theorem prefix_foldl_addMissing (ps bs : List Property) : ps <+: bs.foldl addMissing ps := by
  induction bs generalizing ps with
  | nil => exact List.prefix_rfl
  | cons b rest ih =>
    have hone : ps <+: addMissing ps b := by
      unfold addMissing
      split
      · exact List.prefix_rfl
      · exact List.prefix_append ps [b]
    exact hone.trans (ih _)

theorem inherit_extends (d b : ObjectDefinition) : (d.inherit b).Extends d where
  name := rfl
  description := rfl
  properties := prefix_foldl_addMissing d.properties b.properties
  additional := fun t ht => by simp [inherit, ht]

theorem Extends.mentions {name : String} (h : d.Extends own) (hm : own.Mentions name) :
    d.Mentions name := by
  rcases hm with ⟨q, hq, hname⟩ | ⟨t, ht, hname⟩
  · exact .inl ⟨q, h.properties.subset hq, hname⟩
  · exact .inr ⟨t, h.additional t ht, hname⟩

theorem Extends.eq_iff (h : d.Extends own) (h' : d'.Extends own) :
    d = d' ↔ d.properties.drop own.properties.length = d'.properties.drop own.properties.length ∧
      d.additional = d'.additional := by
  constructor
  · rintro rfl
    exact ⟨rfl, rfl⟩
  · rintro ⟨hdrop, hadditional⟩
    obtain ⟨rest, hrest⟩ := h.properties
    obtain ⟨rest', hrest'⟩ := h'.properties
    have hproperties : d.properties = d'.properties := by
      rw [← hrest, ← hrest', List.drop_left, List.drop_left] at hdrop
      rw [← hrest, ← hrest', hdrop]
    obtain ⟨name, description, properties, additional⟩ := d
    obtain ⟨name', description', properties', additional'⟩ := d'
    obtain rfl : name = name' := h.name.trans h'.name.symm
    obtain rfl : description = description' := h.description.trans h'.description.symm
    obtain rfl : properties = properties' := hproperties
    obtain rfl : additional = additional' := hadditional
    rfl

end ObjectDefinition

namespace Resolver

open Resolve

variable {p : Program} {node node₁ node₂ : TypeNode} {ctx ctx₁ ctx₂ : ResolveContext}
variable {name : String} {t t' : ApiType}

/-! ## Answers and plans -/

/-- The node stands for the type, whatever the state in which it is resolved. -/
def Answers (p : Program) (node : TypeNode) (ctx : ResolveContext) (t : ApiType) : Prop :=
  ∃ depth s s', (resolve p depth node ctx).runFrom s = some (.ok t, s')

theorem Answers.unique (h : Answers p node ctx t) (h' : Answers p node ctx t') : t = t' := by
  obtain ⟨depth, s, s', ht⟩ := h
  obtain ⟨depth', u, u', ht'⟩ := h'
  exact resolve_answer_unique ht ht'

theorem Answers.defines (h : Answers p node ctx (.refObject name)) :
    ∃ node' b, plan p node' ctx = .define name b := by
  obtain ⟨depth, s, s', hrun⟩ := h
  induction depth generalizing node with
  | zero => simp [resolve_zero] at hrun
  | succ depth ih =>
    rw [resolve_succ] at hrun
    cases hplan : plan p node ctx with
    | answer o =>
      rw [hplan] at hrun
      obtain ⟨rfl, -⟩ : o = .ok (.refObject name) ∧ s = s' := by simpa [Plan.run] using hrun
      cases plan_mentioned? hplan
    | same node' =>
      rw [hplan] at hrun
      exact ih hrun
    | list node' =>
      rw [hplan] at hrun
      obtain ⟨a, s₁, -, hpure⟩ := runFrom_bind_ok.mp hrun
      cases hpure
    | register d =>
      rw [hplan] at hrun
      cases registered_answer hrun
    | define key b =>
      rw [hplan] at hrun
      obtain rfl : name = key := by simpa using reference_answer hrun
      exact ⟨node, b, hplan⟩

theorem builtin?_eq_none {arguments : List TypeNode} (h : builtin? name arguments ctx₁ = none) :
    builtin? name arguments ctx₂ = none := by
  unfold builtin? at h ⊢
  split at h <;> simp_all

theorem plan_default (h : (plan p node ctx).name? = some name) :
    plan p node {} = plan p node ctx := by
  cases node with
  | reference n arguments =>
    simp only [plan, Plan.ofName] at h ⊢
    -- The hints matter to built-in types and to places without enums, which name nothing.
    cases hbuiltin : builtin? n arguments ctx with
    | some b =>
      rw [hbuiltin] at h
      cases b <;> cases h
    | none =>
      rw [hbuiltin] at h
      rw [builtin?_eq_none hbuiltin]
      simp only at h ⊢
      cases hdeclaration : declarationOf p n with
      | error e => rfl
      | ok declaration =>
        rw [hdeclaration] at h
        cases declaration with
        | ofEnum decl =>
          simp only [Plan.ofDeclaration] at h ⊢
          split at h
          · split at h
            · next hextract => simp [hextract]
            · cases h
          · cases h
        | _ => rfl
  | union members => rfl
  | _ => cases h

theorem plan_unique (hp : p.IsPlain) (h₁ : (plan p node₁ ctx₁).name? = some name)
    (h₂ : (plan p node₂ ctx₂).name? = some name) : plan p node₁ ctx₁ = plan p node₂ ctx₂ := by
  have hdefault₁ := plan_default h₁
  have hdefault₂ := plan_default h₂
  rw [← hdefault₁] at h₁
  rw [← hdefault₂] at h₂
  obtain ⟨q₁, hq₁, hplan₁⟩ := refers_of_plan h₁
  obtain ⟨q₂, hq₂, hplan₂⟩ := refers_of_plan h₂
  rw [← hplan₁] at h₁
  rw [← hplan₂] at h₂
  calc plan p node₁ ctx₁ = q₁.plan := by rw [hplan₁, hdefault₁]
    _ = q₂.plan := plan_eq_of_plain hq₁ hq₂ (hp _ hq₁.mem) (hp _ hq₂.mem) h₁ h₂
    _ = plan p node₂ ctx₂ := by rw [hplan₂, hdefault₂]

theorem register_ne_of_define (hp : p.IsPlain) {b : Blueprint} {e : EnumDefinition}
    (hdefine : plan p node₁ ctx₁ = .define name b) (hname : e.name = name) :
    plan p node₂ ctx₂ ≠ .register e := by
  intro hregister
  have heq : plan p node₁ ctx₁ = plan p node₂ ctx₂ :=
    plan_unique hp (by rw [hdefine, Plan.name?]) (by rw [hregister, Plan.name?, hname])
  rw [hdefine, hregister] at heq
  cases heq

/-! ## Declared types -/

/-- An object type is declared under the name: what it has of its own, and the names of the bases
that it lists, in order. -/
def Declared (p : Program) (name : String) (own : ObjectDefinition) (bases : List String) : Prop :=
  ∃ node ctx b, plan p node ctx = .define name b ∧ b.Declares p name own ∧
    List.Forall₂ (fun base n => Answers p base {} (.refObject n)) b.bases bases

variable {own own' : ObjectDefinition} {bases bases' : List String}

theorem Declared.defines (h : Declared p name own bases) :
    ∃ node ctx b, plan p node ctx = .define name b := by
  obtain ⟨node, ctx, b, hplan, -, -⟩ := h
  exact ⟨node, ctx, b, hplan⟩

theorem Declared.unique (hp : p.IsPlain) (h : Declared p name own bases)
    (h' : Declared p name own' bases') : own = own' ∧ bases = bases' := by
  obtain ⟨node₁, ctx₁, b₁, hplan₁, hown₁, hbases₁⟩ := h
  obtain ⟨node₂, ctx₂, b₂, hplan₂, hown₂, hbases₂⟩ := h'
  have hplan : plan p node₁ ctx₁ = plan p node₂ ctx₂ :=
    plan_unique hp (by rw [hplan₁, Plan.name?]) (by rw [hplan₂, Plan.name?])
  obtain rfl : b₁ = b₂ := by simpa [hplan₁, hplan₂] using hplan
  have hright : Relator.RightUnique fun base n => Answers p base {} (.refObject n) := by
    intro base n n' hn hn'
    simpa using hn.unique hn'
  exact ⟨hown₁.unique hown₂, hright.forall₂ hbases₁ hbases₂⟩

/-! ## Whole definitions -/

/-- What a definition becomes when it takes over the types with these names, one after the other,
each with all that it inherits itself. -/
inductive Extended (p : Program) : ObjectDefinition → List String → ObjectDefinition → Prop
  | nil (d : ObjectDefinition) : Extended p d [] d
  | cons {d d' own whole : ObjectDefinition} {name : String} {bases rest : List String}
      (hname : Declared p name own bases) (hwhole : Extended p own bases whole)
      (hrest : Extended p (d.inherit whole) rest d') : Extended p d (name :: rest) d'

/-- The definition of a declared type with all that it inherits. -/
def Whole (p : Program) (name : String) (d : ObjectDefinition) : Prop :=
  ∃ own bases, Declared p name own bases ∧ Extended p own bases d

namespace Extended

variable {d d' d'' : ObjectDefinition} {names names' : List String} {wholes : List ObjectDefinition}

theorem unique (hp : p.IsPlain) (h : Extended p d names d') (h' : Extended p d names d'') :
    d' = d'' := by
  induction h generalizing d'' with
  | nil d =>
    cases h'
    rfl
  | cons hname hwhole hrest ihwhole ihrest =>
    cases h' with
    | cons hname' hwhole' hrest' =>
      obtain ⟨rfl, rfl⟩ := hname.unique hp hname'
      obtain rfl := ihwhole hwhole'
      exact ihrest hrest'

theorem snoc {whole : ObjectDefinition} (h : Extended p d names d') (hname : Whole p name whole) :
    Extended p d (names ++ [name]) (d'.inherit whole) := by
  obtain ⟨own, bases, hdeclared, hwhole⟩ := hname
  induction h with
  | nil d => exact .cons hdeclared hwhole (.nil _)
  | cons hname' hwhole' _ _ ih => exact .cons hname' hwhole' ih

theorem foldl_inherit (h : Extended p d names d') (hwholes : List.Forall₂ (Whole p) names' wholes) :
    Extended p d (names ++ names') (wholes.foldl .inherit d') := by
  induction hwholes generalizing names d' with
  | nil => simpa using h
  | cons hname _ ih => simpa using ih (h.snoc hname)

theorem extends_own (h : Extended p d names d') : d'.Extends d := by
  induction h with
  | nil d => exact .refl d
  | cons _ _ _ _ ih => exact ih.trans (ObjectDefinition.inherit_extends _ _)

end Extended

theorem Whole.unique (hp : p.IsPlain) {d d' : ObjectDefinition} (h : Whole p name d)
    (h' : Whole p name d') : d = d' := by
  obtain ⟨own, bases, hdeclared, hextended⟩ := h
  obtain ⟨own', bases', hdeclared', hextended'⟩ := h'
  obtain ⟨rfl, rfl⟩ := hdeclared.unique hp hdeclared'
  exact hextended.unique hp hextended'

end Resolver
end DecoratedApi
