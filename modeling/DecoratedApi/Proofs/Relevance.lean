import DecoratedApi.Proofs.Lookup
import DecoratedApi.Proofs.Methods

/-!
# What a document does not depend on

A method without a verb is passed over, and so are all methods of a class without a route. A class
is also a type, but what is built for a type depends on its properties and bases only. So two
programs that differ in such methods alone give the same document or the same error.
-/

namespace DecoratedApi

open Resolver Resolve

/-! ## Programs with the same routes -/

/-- The classes differ at most in methods that no request reaches: those without a verb, and all
methods when there is no route. -/
structure ClassDecl.SameRoutes (c c' : ClassDecl) : Prop where
  rest : c' = { c with methods := c'.methods }
  methods : c.isController = true →
    c.methods.filter MethodDecl.isRoutable = c'.methods.filter MethodDecl.isRoutable

theorem ClassDecl.SameRoutes.refl (c : ClassDecl) : c.SameRoutes c := ⟨rfl, fun _ => rfl⟩

/-- One declaration, or two classes that differ at most in methods that no request reaches. -/
inductive Declaration.SameRoutes : Declaration → Declaration → Prop
  | same (d : Declaration) : SameRoutes d d
  | ofClass {c c' : ClassDecl} (h : c.SameRoutes c') : SameRoutes (.ofClass c) (.ofClass c')

/-- The units declare the same, up to methods that no request reaches. -/
structure SourceUnit.SameRoutes (u u' : SourceUnit) : Prop where
  path : u.path = u'.path
  imports : u.imports = u'.imports
  declarations : List.Forall₂ Declaration.SameRoutes u.declarations u'.declarations

/-- The programs differ at most in methods that no request reaches. -/
def Program.SameRoutes (p p' : Program) : Prop :=
  List.Forall₂ SourceUnit.SameRoutes p.units p'.units

/-! ## Types -/

namespace Declaration.SameRoutes

variable {d d' : Declaration}

theorem name_eq (h : d.SameRoutes d') : d.name = d'.name := by
  cases h with
  | same => rfl
  | ofClass h =>
    rw [h.rest]
    rfl

theorem ofDeclaration_eq (h : d.SameRoutes d') (arguments : List TypeNode)
    (ctx : ResolveContext) :
    Plan.ofDeclaration arguments ctx d = Plan.ofDeclaration arguments ctx d' := by
  cases h with
  | same => rfl
  | ofClass h =>
    rw [h.rest]
    rfl

end Declaration.SameRoutes

namespace Program.SameRoutes

variable {p p' : Program} (h : p.SameRoutes p')

include h

theorem declarations :
    List.Forall₂ Declaration.SameRoutes p.declarations p'.declarations :=
  List.rel_flatMap h fun _ _ hu => hu.declarations

theorem find (name : String) :
    List.Forall₂ Declaration.SameRoutes (p.find name) (p'.find name) := by
  rw [p.find_eq, p'.find_eq]
  exact List.rel_filter (fun _ _ hd => by simp [hd.name_eq]) h.declarations

theorem plan_eq (node : TypeNode) (ctx : ResolveContext) : plan p node ctx = plan p' node ctx := by
  cases node with
  | reference name arguments =>
    have hfind := h.find name
    simp only [plan, Plan.ofName, declarationOf]
    cases builtin? name arguments ctx with
    | some b => cases b <;> rfl
    | none =>
      -- A name has as many declarations in one program as in the other.
      generalize p.find name = found at hfind
      generalize p'.find name = found' at hfind
      cases hfind with
      | nil => rfl
      | cons hd hrest =>
        cases hrest with
        | nil => exact hd.ofDeclaration_eq arguments ctx
        | cons _ _ => rfl
  | _ => rfl

theorem resolve_eq (depth : Nat) : resolve p depth = resolve p' depth :=
  resolve_congr h.plan_eq depth

end Program.SameRoutes

/-! ## Methods -/

theorem Resolve.ofOutcome_ok_bind {α β : Type} (a : α) (f : α → Resolve β) :
    ofOutcome (.ok a) >>= f = f a := rfl

theorem Resolve.ofOutcome_error_bind {α β : Type} (e : GenerateError) (f : α → Resolve β) :
    ofOutcome (.error e) >>= f = throw e := rfl

theorem MethodDecl.route?_of_not_isRoutable {m : MethodDecl} (h : m.isRoutable = false)
    (controller : String) : m.route? controller = .ok none := by
  have hverbs : Decorator.verbs m.decorators = [] := by simpa [isRoutable] using h
  simp [route?, hverbs]

namespace ClassDecl

variable (self : Resolver.Recursor)

theorem generateMethods_filter (controller : String) (tags : List String)
    (security : List Security) (ms : List MethodDecl) :
    generateMethods self controller tags security ms =
      generateMethods self controller tags security (ms.filter MethodDecl.isRoutable) := by
  induction ms with
  | nil => rfl
  | cons m rest ih =>
    cases hm : m.isRoutable with
    | false =>
      rw [List.filter_cons_of_neg (by simp [hm]), ← ih, generateMethods,
        MethodDecl.route?_of_not_isRoutable hm, ofOutcome_ok_bind]
    | true =>
      rw [List.filter_cons_of_pos hm, generateMethods, generateMethods, ih]

variable {c c' : ClassDecl}

theorem SameRoutes.route?_eq (h : c.SameRoutes c') : c.route? = c'.route? := by
  rw [h.rest]
  rfl

theorem SameRoutes.generate_eq (h : c.SameRoutes c') (hc : c.isController = true)
    (location : String) (route : Option Decorator) :
    c.generate self location route = c'.generate self location route := by
  have hmethods : ∀ tags security, generateMethods self c.name tags security c.methods =
      generateMethods self c.name tags security c'.methods := by
    intro tags security
    rw [generateMethods_filter, h.methods hc, ← generateMethods_filter]
  rw [h.rest]
  simp only [generate, hmethods]
  rfl

end ClassDecl

/-! ## Controllers -/

namespace Program

theorem generateControllers_congr (self : Resolver.Recursor) {cs cs' : List (String × ClassDecl)}
    (h : List.Forall₂ (fun e e' => e.1 = e'.1 ∧ e.2.SameRoutes e'.2) cs cs') :
    generateControllers self cs = generateControllers self cs' := by
  induction h with
  | nil => rfl
  | @cons e e' rest rest' he _ ih =>
    obtain ⟨location, c⟩ := e
    obtain ⟨location', c'⟩ := e'
    obtain ⟨rfl, hc⟩ : location = location' ∧ c.SameRoutes c' := he
    rw [generateControllers, generateControllers, ← hc.route?_eq, ih]
    cases hroute : c.route? with
    | error cause => rw [ofOutcome_error_bind, ofOutcome_error_bind]
    | ok route =>
      rw [ofOutcome_ok_bind, ofOutcome_ok_bind]
      cases route with
      | none => rfl
      | some route =>
        have hgenerate := hc.generate_eq self (ClassDecl.route?_isSome hroute)
        simp only [hgenerate]

theorem SameRoutes.classes {p p' : Program} (h : p.SameRoutes p') :
    List.Forall₂ (fun e e' => e.1 = e'.1 ∧ e.2.SameRoutes e'.2) p.classes p'.classes := by
  refine List.rel_flatMap h fun u u' hu => ?_
  refine List.rel_filterMap (fun d d' hd => ?_) hu.declarations
  cases hd with
  | same d =>
    cases d with
    | ofClass c => exact .some ⟨hu.path, .refl c⟩
    | _ => exact .none
  | ofClass hc => exact .some ⟨hu.path, hc⟩

end Program

/-- Methods that no request reaches have no influence on the document, nor on the error. -/
theorem metadata_ignores_unreached_methods {p p' : Program} (h : p.SameRoutes p') (depth : Nat) :
    p.metadataAt depth = p'.metadataAt depth := by
  unfold Program.metadataAt
  rw [h.resolve_eq, Program.generateControllers_congr _ h.classes]

/-- A method whose type is declared nowhere. -/
def MethodDecl.astray (verbs : List String) : MethodDecl :=
  { name := "astray", doc := none, decorators := verbs.map (⟨·, [], []⟩), parameters := []
    returnType := some (.named "Missing"), returns := [] }

/-- Orders are packed by somebody. The class of packers is a type only. -/
def Program.packing (ofPackers ofOrders : List MethodDecl) : Program :=
  { units := [
      { path := "packing.ts"
        imports := []
        declarations := [
          .ofClass
            { name := "Packer", doc := none, decorators := [], typeParameters := [], base := none
              methods := ofPackers, properties := [.plain "name" (.keyword .string)] },
          .ofClass
            { ClassDecl.orders with
              methods := ofOrders ++ [
                { name := "packer", doc := none, decorators := [⟨"Get", [], []⟩], parameters := []
                  returnType := some (.named "Packer"), returns := [] }] }] }] }

/-- A packer's method with two verbs and a controller's method without any do no harm. -/
theorem packing_ignores_astray :
    (Program.packing [] []).SameRoutes (.packing [.astray ["Get", "Post"]] [.astray []]) ∧
      ∃ m, (Program.packing [] []).metadataAt 20 = some (.ok m) ∧
        (Program.packing [.astray ["Get", "Post"]] [.astray []]).metadataAt 20 =
          some (.ok m) := by
  have hsame : (Program.packing [] []).SameRoutes
      (.packing [.astray ["Get", "Post"]] [.astray []]) := by
    refine .cons ⟨rfl, rfl, .cons (.ofClass ⟨rfl, ?_⟩) (.cons (.ofClass ⟨rfl, ?_⟩) .nil)⟩ .nil
    · intro hroute
      cases hroute
    · exact fun _ => rfl
  have hgen : (Program.packing [] []).generates 20 (fun _ => true) = true := by decide +kernel
  obtain ⟨m, h, -⟩ := Program.generates_iff.mp hgen
  exact ⟨hsame, m, h, metadata_ignores_unreached_methods hsame 20 ▸ h⟩

end DecoratedApi
