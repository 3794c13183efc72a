import Mathlib.Data.List.Infix
import DecoratedApi.Proofs.Session

/-!
# What a method of a document keeps to

The rules of requests are checked where a parameter is bound and once more when all parameters of a
method are known. `Parameter.Fits` says what holds of one parameter, `MethodDecl.Describes` what
holds of a method and the declaration that it was generated from. Neither depends on how types are
resolved, so the state of the resolver plays no part here.
-/

namespace DecoratedApi

open Resolve

/-! ## Texts within texts -/

theorem Text.occursIn_iff {needle hay : List Char} :
    occursIn needle hay = true ↔ needle <:+: hay := by
  induction hay with
  | nil => simp [occursIn, List.isEmpty_iff]
  | cons c cs ih =>
    rw [occursIn, Bool.or_eq_true, ih, List.infix_cons_iff, List.isPrefixOf_iff_prefix]

theorem MethodSite.hasPlaceFor_iff {site : MethodSite} {name : String} :
    site.hasPlaceFor name = true ↔ (placeholder name).toList <:+: site.path.toList :=
  Text.occursIn_iff

/-! ## Types on the wire -/

theorem ApiType.mentioned?_of_isWireSafe {t : ApiType} (h : t.isWireSafe = true) :
    t.mentioned? = none := by
  cases t <;> first | rfl | cases h

/-- A type that can be given once, or repeatedly. -/
def ApiType.IsRepeatable (t : ApiType) : Prop :=
  t.isWireSafe = true ∨ ∃ element, t = .array element ∧ element.isWireSafe = true

theorem ApiType.IsRepeatable.mentioned? {t : ApiType} (h : t.IsRepeatable) :
    t.mentioned? = none := by
  rcases h with h | ⟨element, rfl, h⟩
  · exact mentioned?_of_isWireSafe h
  · exact mentioned?_of_isWireSafe (t := element) h

theorem Binding.checkType_ok {b : Binding} {name : String} {t : ApiType}
    (h : b.checkType name t = .ok ()) : t.IsRepeatable ∧ (b ≠ .query → t.isWireSafe = true) := by
  unfold checkType at h
  split at h
  · next element =>
    split at h
    · next hsafe => exact ⟨.inr ⟨element, rfl, hsafe⟩, fun hb => absurd rfl hb⟩
    · cases h
  · split at h
    · next hsafe => exact ⟨.inl hsafe, fun _ => hsafe⟩
    · cases h

/-! ## Parameters -/

/-- What holds of a parameter of a method with this verb and this path. -/
structure Parameter.Fits (verb : Verb) (path : String) (q : Parameter) : Prop where
  placed : q.location = .path →
    q.required = true ∧ (MethodSite.placeholder q.name).toList <:+: path.toList
  carried : q.location = .body ∨ q.location = .bodyProperty → verb ∈ [Verb.post, .put, .patch]
  single : q.location = .header ∨ q.location = .path → q.type.isWireSafe = true
  repeatable : q.location = .query → q.type.IsRepeatable
  unnamed : q.location = .header ∨ q.location = .path ∨ q.location = .query →
    q.type.mentioned? = none
  whole : q.location = .request → q.type = .object
  noForm : q.location ≠ .formData

theorem Verb.mem_of_acceptsBody {verb : Verb} (h : verb.acceptsBody = true) :
    verb ∈ [Verb.post, .put, .patch] := by
  cases verb <;> revert h <;> decide

/-- Nothing is asked of the states. -/
def AnyStates (_ : Bool) (_ _ : ResolverState) : Prop := True

theorem anyStates_sequential : Sequential AnyStates := ⟨fun _ _ => trivial, fun _ _ => trivial⟩

theorem yields_any {α : Type} (x : Resolve α) (s : ResolverState) :
    Yields AnyStates x s fun _ _ => True := fun _ _ _ => ⟨trivial, fun _ _ => trivial⟩

namespace MethodSite

variable (site : MethodSite) (self : Resolver.Recursor) (p : ParameterDecl)

theorem requestParameter_fits (name : String) (s : ResolverState) :
    Yields AnyStates (site.requestParameter p name) s fun _ q => q.Fits site.verb site.path := by
  refine yields_ofOutcome_bind anyStates_sequential fun validators _ => ?_
  refine yields_pure anyStates_sequential ?_
  constructor <;> simp

theorem bodyParameter_fits (name : String) (s : ResolverState) :
    Yields AnyStates (site.bodyParameter self p name) s fun _ q =>
      q.Fits site.verb site.path := by
  refine (yields_any _ s).bind anyStates_sequential fun type s' _ _ => ?_
  dsimp only
  split
  · exact yields_throw_bind anyStates_sequential _ _
  · next hverb =>
    refine yields_ofOutcome_bind anyStates_sequential fun validators _ => ?_
    have hcarried := Verb.mem_of_acceptsBody (by simpa using hverb : site.verb.acceptsBody = true)
    refine yields_pure anyStates_sequential ?_
    constructor <;> simp [hcarried]

theorem bodyPropertyParameter_fits (name wireName : String) (s : ResolverState) :
    Yields AnyStates (site.bodyPropertyParameter self p name wireName) s fun _ q =>
      q.Fits site.verb site.path := by
  refine (yields_any _ s).bind anyStates_sequential fun type s' _ _ => ?_
  dsimp only
  split
  · exact yields_throw_bind anyStates_sequential _ _
  · next hverb =>
    refine yields_ofOutcome_bind anyStates_sequential fun fallback _ => ?_
    refine yields_ofOutcome_bind anyStates_sequential fun validators _ => ?_
    have hcarried := Verb.mem_of_acceptsBody (by simpa using hverb : site.verb.acceptsBody = true)
    refine yields_pure anyStates_sequential ?_
    constructor <;> simp [hcarried]

theorem wireParameter_fits {b : Binding} (hb : b = .header ∨ b = .query ∨ b = .path)
    (name wireName : String) (s : ResolverState) :
    Yields AnyStates (site.wireParameter self p b name wireName) s fun _ q =>
      q.Fits site.verb site.path := by
  refine (yields_any _ s).bind anyStates_sequential fun type s' _ _ => ?_
  refine yields_ofOutcome_bind anyStates_sequential fun _ hcheck => ?_
  dsimp only
  split
  · exact yields_throw_bind anyStates_sequential _ _
  · next hplace =>
    refine yields_ofOutcome_bind anyStates_sequential fun fallback _ => ?_
    refine yields_ofOutcome_bind anyStates_sequential fun validators _ => ?_
    obtain ⟨hrepeatable, hsafe⟩ := Binding.checkType_ok hcheck
    have hunnamed := hrepeatable.mentioned?
    refine yields_pure anyStates_sequential ?_
    rcases hb with rfl | rfl | rfl
    · constructor <;> simp [Binding.location, hsafe, hunnamed]
    · constructor <;> simp [Binding.location, hrepeatable, hunnamed]
    · have hplaced : site.hasPlaceFor wireName = true := by simpa using hplace
      rw [hasPlaceFor_iff] at hplaced
      constructor <;> simp [Binding.location, hsafe, hunnamed, hplaced]

theorem parameter_fits (s : ResolverState) :
    Yields AnyStates (site.parameter self p) s fun _ q => q.Fits site.verb site.path := by
  unfold parameter
  split
  · exact yields_throw anyStates_sequential _
  · dsimp only
    split
    · exact requestParameter_fits site p _ s
    · exact bodyParameter_fits site self p _ s
    · exact bodyPropertyParameter_fits site self p _ _ s
    · exact wireParameter_fits site self p (by simp) _ _ s
    · exact wireParameter_fits site self p (by simp) _ _ s
    · exact wireParameter_fits site self p (by simp) _ _ s

end MethodSite

/-! ## Methods -/

namespace MethodDecl

/-- What holds of a method and the declaration that it was generated from. -/
structure Describes (controller : String) (decl : MethodDecl) (m : Method) : Prop where
  name : m.name = decl.name
  route : decl.route? controller = .ok (some ⟨m.verb, m.path⟩)
  verb : m.verb ∈ [Verb.get, .post, .put, .patch, .delete]
  parameters : ∀ q ∈ m.parameters, q.Fits m.verb m.path
  oneBody : (m.parameters.filter (·.location == .body)).length ≤ 1
  bodyAlone : ∀ q ∈ m.parameters, ∀ q' ∈ m.parameters,
    ¬ (q.location = .body ∧ q'.location = .bodyProperty)
  answers : m.responses.length = (Decorator.ofKind .response decl.decorators).length + 1
  success : ∃ r, m.responses.getLast? = some r ∧ r.schema = some m.type

/-- The method has a verb. -/
def isRoutable (decl : MethodDecl) : Bool := !(Decorator.verbs decl.decorators).isEmpty

variable {controller : String} {decl : MethodDecl}

theorem mem_routable_of_verbs {ds : List Decorator} {verb : Verb} {d : Decorator}
    (h : (verb, d) ∈ Decorator.verbs ds) : verb ∈ Verb.routable := by
  obtain ⟨d', -, hd'⟩ := List.mem_filterMap.mp h
  obtain ⟨v, hv, he⟩ := Option.map_eq_some_iff.mp hd'
  obtain ⟨rfl, rfl⟩ : v = verb ∧ d' = d := by simpa using he
  obtain ⟨kind, hkind, hverb⟩ := Option.bind_eq_some_iff.mp hv
  obtain rfl : kind = .verb v := by
    cases kind <;> simp_all [DecoratorKind.verb?]
  unfold Decorator.kind? DecoratorKind.ofName? at hkind
  split at hkind
  case h_8 =>
    split at hkind
    · next v' hv' =>
      obtain rfl : v' = v := by simpa using hkind
      exact List.mem_of_find?_eq_some hv'
    · simp at hkind
  all_goals simp at hkind

theorem route?_eq_some {route : MethodRoute} (h : decl.route? controller = .ok (some route)) :
    decl.isRoutable = true ∧ route.verb ∈ Verb.routable := by
  unfold route? at h
  split at h
  · cases h
  · next verb d hverbs =>
    cases h
    have hmem : (verb, d) ∈ Decorator.verbs decl.decorators := by
      rw [hverbs]
      exact List.mem_cons_self
    exact ⟨by simp [isRoutable, hverbs], mem_routable_of_verbs hmem⟩
  · cases h

theorem route?_eq_none (h : decl.route? controller = .ok none) : decl.isRoutable = false := by
  unfold route? at h
  split at h
  · next hverbs => simp [isRoutable, hverbs]
  · cases h
  · cases h

theorem checkBodies_ok {method : String} {ps : List Parameter}
    (h : checkBodies controller method ps = .ok ()) :
    (ps.filter (·.location == .body)).length ≤ 1 ∧
      ∀ q ∈ ps, ∀ q' ∈ ps, ¬ (q.location = .body ∧ q'.location = .bodyProperty) := by
  simp only [checkBodies] at h
  split at h
  · cases h
  · next hbodies =>
    split at h
    · cases h
    · next hboth =>
      refine ⟨by omega, fun q hq q' hq' hloc => hboth ⟨?_, ?_⟩⟩
      · exact List.length_pos_of_mem (List.mem_filter.mpr ⟨hq, by simp [hloc.1]⟩)
      · exact List.length_pos_of_mem (List.mem_filter.mpr ⟨hq', by simp [hloc.2]⟩)

variable (self : Resolver.Recursor)

theorem responses_length (ds : List Decorator) (s : ResolverState) :
    Yields AnyStates (responses self ds) s fun _ rs => rs.length = ds.length := by
  induction ds generalizing s with
  | nil => exact yields_pure anyStates_sequential rfl
  | cons d rest ih =>
    refine (yields_any _ s).bind anyStates_sequential fun r s₁ _ _ => ?_
    refine (ih s₁).bind anyStates_sequential fun rs s₂ _ hrs => ?_
    exact yields_pure anyStates_sequential (by simp [hrs])

theorem generateParameters_fits (site : MethodSite) (method : String) (ps : List ParameterDecl)
    (s : ResolverState) :
    Yields AnyStates (generateParameters self site controller method ps) s fun _ qs =>
      ∀ q ∈ qs, q.Fits site.verb site.path := by
  induction ps generalizing s with
  | nil => exact yields_pure anyStates_sequential (by simp)
  | cons p rest ih =>
    refine (MethodSite.parameter_fits site self p s).mapError.bind anyStates_sequential
      fun q s₁ _ hq => ?_
    refine (ih s₁).bind anyStates_sequential fun qs s₂ _ hqs => ?_
    exact yields_pure anyStates_sequential (by simpa using ⟨hq, hqs⟩)

theorem generate_describes {route : MethodRoute}
    (hroute : decl.route? controller = .ok (some route)) (tags : List String)
    (security : List Security) (s : ResolverState) :
    Yields AnyStates (decl.generate self controller (some route) tags security) s fun _ m =>
      decl.Describes controller m := by
  refine (yields_any _ s).bind anyStates_sequential fun node s₁ _ _ => ?_
  refine (yields_any _ s₁).bind anyStates_sequential fun type s₂ _ _ => ?_
  refine (responses_length self _ s₂).mapError.bind anyStates_sequential
    fun listed s₃ _ hlisted => ?_
  refine yields_ofOutcome_bind anyStates_sequential fun success hsuccess => ?_
  refine (generateParameters_fits self _ _ _ s₃).bind anyStates_sequential
    fun parameters s₄ _ hparameters => ?_
  refine yields_ofOutcome_bind anyStates_sequential fun _ hbodies => ?_
  refine yields_ofOutcome_bind anyStates_sequential fun security _ => ?_
  refine yields_ofOutcome_bind anyStates_sequential fun tags _ => ?_
  refine yields_ofOutcome_bind anyStates_sequential fun hidden _ => ?_
  obtain ⟨honeBody, hbodyAlone⟩ := checkBodies_ok hbodies
  exact yields_pure anyStates_sequential
    { name := rfl
      route := hroute
      verb := (route?_eq_some hroute).2
      parameters := hparameters
      oneBody := honeBody
      bodyAlone := hbodyAlone
      answers := by simp [hlisted]
      success := ⟨success, by simp, successResponse_schema hsuccess⟩ }

end MethodDecl

/-! ## Controllers -/

/-- The methods of a controller are those of the class that have a verb, in order. -/
structure ClassDecl.Describes (location : String) (decl : ClassDecl) (c : Controller) : Prop where
  name : c.name = decl.name
  location : c.location = location
  methods : List.Forall₂ (MethodDecl.Describes decl.name)
    (decl.methods.filter MethodDecl.isRoutable) c.methods

/-- The class is a controller. -/
def ClassDecl.isController (decl : ClassDecl) : Bool :=
  !(Decorator.ofKind .route decl.decorators).isEmpty

section Walk

variable (self : Resolver.Recursor)

theorem ClassDecl.generateMethods_describes (controller : String) (tags : List String)
    (security : List Security) (ms : List MethodDecl) (s : ResolverState) :
    Yields AnyStates (generateMethods self controller tags security ms) s fun _ ms' =>
      List.Forall₂ (MethodDecl.Describes controller) (ms.filter MethodDecl.isRoutable) ms' := by
  induction ms generalizing s with
  | nil => exact yields_pure anyStates_sequential .nil
  | cons m rest ih =>
    refine yields_ofOutcome_bind anyStates_sequential fun route hroute => ?_
    cases route with
    | none =>
      rw [List.filter_cons, MethodDecl.route?_eq_none hroute]
      exact ih s
    | some route =>
      rw [List.filter_cons, (MethodDecl.route?_eq_some hroute).1]
      refine (MethodDecl.generate_describes self hroute tags security s).bind
        anyStates_sequential fun m' s₁ _ hm' => ?_
      refine (ih s₁).bind anyStates_sequential fun ms' s₂ _ hms' => ?_
      exact yields_pure anyStates_sequential (.cons hm' hms')

theorem ClassDecl.generate_describes (location : String) (route : Option Decorator)
    (c : ClassDecl) (s : ResolverState) :
    Yields AnyStates (c.generate self location route) s fun _ c' => c.Describes location c' := by
  refine yields_ofOutcome_bind anyStates_sequential fun tags _ => ?_
  refine yields_ofOutcome_bind anyStates_sequential fun security _ => ?_
  refine (generateMethods_describes self _ _ _ _ s).bind anyStates_sequential fun ms s' _ hms => ?_
  exact yields_pure anyStates_sequential ⟨rfl, rfl, hms⟩

theorem ClassDecl.route?_isSome {c : ClassDecl} {route : Option Decorator}
    (h : c.route? = .ok route) : c.isController = route.isSome := by
  unfold route? at h
  unfold isController
  split at h
  · next hnone =>
    cases h
    simp [hnone]
  · next d hone =>
    cases h
    simp [hone]
  · cases h

theorem Program.generateControllers_describes (cs : List (String × ClassDecl))
    (s : ResolverState) :
    Yields AnyStates (generateControllers self cs) s fun _ cs' =>
      List.Forall₂ (fun e c => ClassDecl.Describes e.1 e.2 c) (cs.filter (·.2.isController)) cs' := by
  induction cs generalizing s with
  | nil => exact yields_pure anyStates_sequential .nil
  | cons e rest ih =>
    obtain ⟨location, c⟩ := e
    refine yields_ofOutcome_bind anyStates_sequential fun route hroute => ?_
    rw [List.filter_cons, ClassDecl.route?_isSome hroute]
    cases route with
    | none => exact ih s
    | some route =>
      refine (ClassDecl.generate_describes self location (some route) c s).bind
        anyStates_sequential fun c' s₁ _ hc' => ?_
      refine (ih s₁).bind anyStates_sequential fun cs' s₂ _ hcs' => ?_
      exact yields_pure anyStates_sequential (.cons hc' hcs')

end Walk

theorem Program.exists_describes {p : Program} {depth : Nat} {m : Metadata}
    (h : p.metadataAt depth = some (.ok m)) {c : Controller} (hc : c ∈ m.controllers)
    {x : Method} (hx : x ∈ c.methods) :
    ∃ (controller : String) (decl : MethodDecl), decl.Describes controller x := by
  obtain ⟨s, hwalk, -⟩ := Program.metadataAt_ok.mp h
  have hall := (generateControllers_describes _ _ _ _ _ hwalk).2 m.controllers rfl
  obtain ⟨e, -, he⟩ := exists_of_forall₂ hall hc
  obtain ⟨decl, -, hdecl⟩ := exists_of_forall₂ he.methods hx
  exact ⟨e.2.name, decl, hdecl⟩

/-- The controllers of a document are the classes with a route, in order, and each of their methods
keeps to the rules. -/
theorem generated_methods_keep_to_rules {p : Program} {depth : Nat} {m : Metadata}
    (h : p.metadataAt depth = some (.ok m)) :
    List.Forall₂ (fun e c => ClassDecl.Describes e.1 e.2 c) (p.classes.filter (·.2.isController))
      m.controllers := by
  obtain ⟨s, hwalk, -⟩ := Program.metadataAt_ok.mp h
  exact (Program.generateControllers_describes _ _ _ _ _ hwalk).2 m.controllers rfl

/-- A required parameter with one decorator. -/
def ParameterDecl.bound (name : String) (d : Decorator) (type : TypeNode) : ParameterDecl :=
  { name := some name, decorators := [d], type := some type, optional := false
    initializer := none, accessibility := none, readonly := false }

/-- Orders are found by their number and placed by giving their properties. -/
def ClassDecl.orders : ClassDecl :=
  { name := "Orders", doc := none, decorators := [⟨"Route", [], [.string "/orders//"]⟩]
    typeParameters := [], base := none, properties := []
    methods := [
      { name := "find", doc := none
        decorators := [⟨"Get", [], [.string "//\x7bid\x7d/"]⟩,
          ⟨"Response", [.named "Problem"], [.string "404"]⟩]
        parameters := [
          .bound "key" ⟨"Path", [], [.string "id"]⟩ (.keyword .number),
          .bound "states" ⟨"Query", [], []⟩ (.array (.named "State"))]
        returnType := some (.named "Order"), returns := [] },
      { name := "place", doc := none, decorators := [⟨"Post", [], []⟩]
        parameters := [
          .bound "parts" ⟨"BodyProp", [], []⟩ (.array (.named "Order")),
          .bound "state" ⟨"BodyProp", [], []⟩ (.named "State")]
        returnType := some (.keyword .void), returns := [] }] }

def Program.shop : Program :=
  { units := [
      { path := "shop.ts"
        imports := []
        declarations := [
          .plainInterface "Order" []
            [.plain "parts" (.array (.named "Order")), .plain "state" (.named "State")],
          .plainInterface "Problem" [] [.plain "text" (.keyword .string)],
          .ofEnum { name := "State", doc := none, members := [⟨"placed", none⟩, ⟨"sent", none⟩] },
          .ofClass .orders] }] }

theorem shop_methods_keep_to_rules :
    ∃ m c found placed q, Program.shop.metadataAt 20 = some (.ok m) ∧ m.controllers = [c] ∧
      c.methods = [found, placed] ∧ found.responses.length = 2 ∧ placed.verb = .post ∧
      q ∈ found.parameters ∧ q.location = .path ∧ q.required = true ∧
      (MethodSite.placeholder q.name).toList <:+: "//\x7bid\x7d/".toList := by
  have hgen : Program.shop.generates 20 (fun m =>
      m.controllers.all fun c => c.methods.head?.any fun found =>
        found.parameters.any (·.location == .path)) = true := by decide +kernel
  obtain ⟨m, h, hok⟩ := Program.generates_iff.mp hgen
  have hrules := generated_methods_keep_to_rules h
  rw [show Program.shop.classes.filter (·.2.isController) = [("shop.ts", .orders)] from rfl]
    at hrules
  obtain ⟨c, _, hc, hnil, hcontrollers⟩ := List.forall₂_cons_left_iff.mp hrules
  obtain rfl := List.forall₂_nil_left_iff.mp hnil
  obtain ⟨found, _, hfound, hrest, hmethods⟩ := List.forall₂_cons_left_iff.mp hc.methods
  obtain ⟨placed, _, hplaced, hnil, rfl⟩ := List.forall₂_cons_left_iff.mp hrest
  obtain rfl := List.forall₂_nil_left_iff.mp hnil
  obtain ⟨q, hq, hpath⟩ : ∃ q ∈ found.parameters, q.location = .path := by
    simpa [hcontrollers, hmethods] using hok
  obtain ⟨-, hown⟩ : .get = found.verb ∧ "//\x7bid\x7d/" = found.path :=
    MethodRoute.mk.inj (Option.some.inj (Except.ok.inj hfound.route))
  obtain ⟨hverb, -⟩ : .post = placed.verb ∧ "" = placed.path :=
    MethodRoute.mk.inj (Option.some.inj (Except.ok.inj hplaced.route))
  have hplace := (hfound.parameters q hq).placed hpath
  rw [← hown] at hplace
  exact ⟨m, c, found, placed, q, h, hcontrollers, hmethods, hfound.answers, hverb.symm, hq, hpath,
    hplace⟩

end DecoratedApi
