import DecoratedApi.Proofs.Growth
import DecoratedApi.Route.ControllerOf

/-!
# The walk over the controllers

Methods and controllers change the resolver's state only by resolving types. So whatever holds of
every call and may be chained holds of the whole walk, and the types in its metadata have whatever
every answer has.
-/

namespace DecoratedApi

open Resolve

/-- The types of a method: what it returns, takes and answers. -/
def Method.types (m : Method) : List ApiType :=
  m.type :: (m.parameters.map (·.type) ++ m.responses.filterMap (·.schema))

def Controller.types (c : Controller) : List ApiType := c.methods.flatMap Method.types

section Walk

variable {R : Bool → ResolverState → ResolverState → Prop} {V : ResolverState → ApiType → Prop}
variable (hI : Invariant R V) (hobject : ∀ s, V s .object)
variable {self : Resolver.Recursor} (hself : self.Meets R V)

/-! ## Parameters -/

namespace MethodSite

variable (site : MethodSite) (p : ParameterDecl)

include hI hobject in
theorem requestParameter_yields (name : String) (s : ResolverState) :
    Yields R (site.requestParameter p name) s fun s' q => V s' q.type :=
  yields_ofOutcome_bind hI.toSequential fun _ _ => yields_pure hI.toSequential (hobject s)

include hI hself

theorem bodyParameter_yields (name : String) (s : ResolverState) :
    Yields R (site.bodyParameter self p name) s fun s' q => V s' q.type := by
  refine (hself _ _ s).bind hI.toSequential fun type s' _ htype => ?_
  dsimp only
  split
  · exact yields_throw_bind hI.toSequential _ _
  · refine yields_ofOutcome_bind hI.toSequential fun validators _ => ?_
    exact yields_pure hI.toSequential htype

theorem bodyPropertyParameter_yields (name wireName : String) (s : ResolverState) :
    Yields R (site.bodyPropertyParameter self p name wireName) s fun s' q => V s' q.type := by
  refine (hself _ _ s).bind hI.toSequential fun type s' _ htype => ?_
  dsimp only
  split
  · exact yields_throw_bind hI.toSequential _ _
  · refine yields_ofOutcome_bind hI.toSequential fun fallback _ => ?_
    refine yields_ofOutcome_bind hI.toSequential fun validators _ => ?_
    exact yields_pure hI.toSequential htype

theorem wireParameter_yields (b : Binding) (name wireName : String) (s : ResolverState) :
    Yields R (site.wireParameter self p b name wireName) s fun s' q => V s' q.type := by
  refine (hself _ _ s).bind hI.toSequential fun type s' _ htype => ?_
  refine yields_ofOutcome_bind hI.toSequential fun _ _ => ?_
  dsimp only
  split
  · exact yields_throw_bind hI.toSequential _ _
  · refine yields_ofOutcome_bind hI.toSequential fun fallback _ => ?_
    refine yields_ofOutcome_bind hI.toSequential fun validators _ => ?_
    exact yields_pure hI.toSequential htype

include hobject

theorem parameter_yields (s : ResolverState) :
    Yields R (site.parameter self p) s fun s' q => V s' q.type := by
  unfold parameter
  split
  · exact yields_throw hI.toSequential _
  · dsimp only
    split
    · exact requestParameter_yields hI hobject site p _ s
    · exact bodyParameter_yields hI hself site p _ s
    · exact bodyPropertyParameter_yields hI hself site p _ _ s
    all_goals exact wireParameter_yields hI hself site p _ _ _ s

end MethodSite

/-! ## Methods -/

namespace MethodDecl

include hI hself in
theorem response_yields (d : Decorator) (s : ResolverState) :
    Yields R (response self d) s fun s' r => ∀ t, r.schema = some t → V s' t := by
  unfold response
  simp only [pure_bind]
  split
  · refine (hself _ _ s).bind hI.toSequential fun type s' _ htype => ?_
    split
    · refine yields_ofOutcome_bind hI.toSequential fun value _ => ?_
      exact yields_pure hI.toSequential (by simpa using htype)
    · exact yields_pure hI.toSequential (by simpa using htype)
  · split
    · refine yields_ofOutcome_bind hI.toSequential fun value _ => ?_
      exact yields_pure hI.toSequential (by simp)
    · exact yields_pure hI.toSequential (by simp)

include hI hself in
theorem responses_yields (ds : List Decorator) (s : ResolverState) :
    Yields R (responses self ds) s fun s' rs => ∀ r ∈ rs, ∀ t, r.schema = some t → V s' t := by
  induction ds generalizing s with
  | nil => exact yields_pure hI.toSequential (by simp)
  | cons d rest ih =>
    refine (response_yields hI hself d s).bind hI.toSequential fun r s₁ _ hr => ?_
    refine (ih s₁).bind hI.toSequential fun rs s₂ hrel hrs => ?_
    refine yields_pure hI.toSequential fun r' hr' => ?_
    rcases List.mem_cons.mp hr' with rfl | hr'
    · exact fun t ht => hI.keeps hrel (hr t ht)
    · exact hrs r' hr'

theorem successResponse_schema {controller : String} {m : MethodDecl} {type : ApiType}
    {r : Response} (h : m.successResponse controller type = .ok r) : r.schema = some type := by
  unfold successResponse at h
  simp only [bind, Except.bind] at h
  split at h
  · cases h
  · split at h
    · cases h
      rfl
    · split at h
      · cases h
      · split at h
        · split at h
          · cases h
            rfl
          · cases h
        · cases h
          rfl

include hI hobject hself

theorem generateParameters_yields (site : MethodSite) (controller method : String)
    (ps : List ParameterDecl) (s : ResolverState) :
    Yields R (generateParameters self site controller method ps) s fun s' qs =>
      ∀ q ∈ qs, V s' q.type := by
  induction ps generalizing s with
  | nil => exact yields_pure hI.toSequential (by simp)
  | cons p rest ih =>
    refine (MethodSite.parameter_yields hI hobject hself site p s).mapError.bind
      hI.toSequential fun q s₁ _ hq => ?_
    refine (ih s₁).bind hI.toSequential fun qs s₂ hrel hqs => ?_
    exact yields_pure hI.toSequential (by simpa using ⟨hI.keeps hrel hq, hqs⟩)

theorem generate_yields (controller : String) (m : MethodDecl) (route : Option MethodRoute)
    (tags : List String) (security : List Security) (s : ResolverState) :
    Yields R (m.generate self controller route tags security) s fun s' m' =>
      ∀ t ∈ m'.types, V s' t := by
  unfold generate
  split
  · exact yields_throw hI.toSequential _
  · next route =>
    refine (yields_ofOutcome hI.toSequential (P := fun _ _ => True) (by simp)).mapError.bind
      hI.toSequential fun node s₁ _ _ => ?_
    refine (hself node {} s₁).mapError.bind hI.toSequential fun type s₂ _ htype => ?_
    refine (responses_yields hI hself _ s₂).mapError.bind hI.toSequential
      fun listed s₃ hrel₃ hlisted => ?_
    refine yields_ofOutcome_bind hI.toSequential fun success hsuccess => ?_
    refine (generateParameters_yields hI hobject hself _ _ _ _ s₃).bind hI.toSequential
      fun parameters s₄ hrel₄ hparameters => ?_
    refine yields_ofOutcome_bind hI.toSequential fun _ _ => ?_
    refine yields_ofOutcome_bind hI.toSequential fun security _ => ?_
    refine yields_ofOutcome_bind hI.toSequential fun tags _ => ?_
    refine yields_ofOutcome_bind hI.toSequential fun hidden _ => ?_
    have htype₄ := hI.keeps hrel₄ (hI.keeps hrel₃ htype)
    refine yields_pure hI.toSequential fun t ht => ?_
    simp only [Method.types, List.mem_cons, List.mem_append, List.mem_map, List.mem_filterMap]
      at ht
    obtain rfl | ⟨q, hq, rfl⟩ | ⟨r, hr, ht⟩ := ht
    · exact htype₄
    · exact hparameters q hq
    · obtain hr | rfl : r ∈ listed ∨ r = success := by simpa using hr
      · exact hI.keeps hrel₄ (hlisted r hr t ht)
      · rw [successResponse_schema hsuccess] at ht
        cases ht
        exact htype₄

end MethodDecl

/-! ## Controllers -/

namespace ClassDecl

include hI hobject hself

theorem generateMethods_yields (controller : String) (tags : List String)
    (security : List Security) (ms : List MethodDecl) (s : ResolverState) :
    Yields R (generateMethods self controller tags security ms) s fun s' ms' =>
      ∀ m ∈ ms', ∀ t ∈ m.types, V s' t := by
  induction ms generalizing s with
  | nil => exact yields_pure hI.toSequential (by simp)
  | cons m rest ih =>
    refine yields_ofOutcome_bind hI.toSequential fun route _ => ?_
    cases route with
    | none => exact ih s
    | some route =>
      refine (MethodDecl.generate_yields hI hobject hself _ m _ _ _ s).bind hI.toSequential
        fun m' s₁ _ hm' => ?_
      refine (ih s₁).bind hI.toSequential fun ms' s₂ hrel hms' => ?_
      refine yields_pure hI.toSequential fun m'' hmem => ?_
      rcases List.mem_cons.mp hmem with rfl | hmem
      · exact fun t ht => hI.keeps hrel (hm' t ht)
      · exact hms' m'' hmem

theorem generate_yields (location : String) (route : Option Decorator) (c : ClassDecl)
    (s : ResolverState) :
    Yields R (c.generate self location route) s fun s' c' => ∀ t ∈ c'.types, V s' t := by
  refine yields_ofOutcome_bind hI.toSequential fun tags _ => ?_
  refine yields_ofOutcome_bind hI.toSequential fun security _ => ?_
  refine (generateMethods_yields hI hobject hself _ _ _ _ s).bind hI.toSequential
    fun ms s' _ hms => ?_
  refine yields_pure hI.toSequential fun t ht => ?_
  obtain ⟨m, hm, ht⟩ := List.mem_flatMap.mp ht
  exact hms m hm t ht

end ClassDecl

include hI hobject hself in
theorem Program.generateControllers_yields (cs : List (String × ClassDecl)) (s : ResolverState) :
    Yields R (generateControllers self cs) s fun s' cs' => ∀ c ∈ cs', ∀ t ∈ c.types, V s' t := by
  induction cs generalizing s with
  | nil => exact yields_pure hI.toSequential (by simp)
  | cons e rest ih =>
    obtain ⟨location, c⟩ := e
    refine yields_ofOutcome_bind hI.toSequential fun route _ => ?_
    cases route with
    | none => exact ih s
    | some route =>
      refine (ClassDecl.generate_yields hI hobject hself _ _ c s).bind hI.toSequential
        fun c' s₁ _ hc' => ?_
      refine (ih s₁).bind hI.toSequential fun cs' s₂ hrel hcs' => ?_
      refine yields_pure hI.toSequential fun c'' hmem => ?_
      rcases List.mem_cons.mp hmem with rfl | hmem
      · exact fun t ht => hI.keeps hrel (hc' t ht)
      · exact hcs' c'' hmem

end Walk
end DecoratedApi
