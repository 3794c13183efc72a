import DecoratedApi.Route.ParameterOf

/-!
# Methods of controllers

A method with exactly one verb answers requests. Its responses are those that its decorators list,
and last the one of success.
-/

namespace DecoratedApi

namespace Decorator

/-- The text of an argument, unless it is empty. -/
def nonEmptyText (d : Decorator) (index : Nat) : Option String :=
  (d.textArgument index).filter (!·.isEmpty)

def securityRequirement (d : Decorator) : Outcome Security :=
  match d.textArgument 0 with
  | none => .error .securityName
  | some name =>
    match d.argument? 1 with
    | none => .ok ⟨name, none⟩
    | some (.array items) => .ok ⟨name, some (items.filterMap Expr.literalText)⟩
    | some (.string scope) => .ok ⟨name, some [scope]⟩
    | some e => .error (.securityScopes name e.describe)

def texts (d : Decorator) : List String := d.arguments.filterMap Expr.literalText

end Decorator

/-- A method that answers requests: its verb and its own path. -/
structure MethodRoute where
  verb : Verb
  path : String
deriving DecidableEq, Repr

namespace MethodDecl

/-- The route of a method; none when it has no verb. Two verbs are refused. -/
def route? (controller : String) (m : MethodDecl) : Outcome (Option MethodRoute) :=
  match Decorator.verbs m.decorators with
  | [] => .ok none
  | [(verb, d)] => .ok (some ⟨verb, (d.textArgument 0).getD ""⟩)
  | several => .error (.manyVerbs controller m.name (several.map (·.2.name)))

/-- The only decorator of a kind. -/
def single (controller : String) (m : MethodDecl) (kind : DecoratorKind) (label : String) :
    Outcome (Option Decorator) :=
  match Decorator.ofKind kind m.decorators with
  | [] => .ok none
  | [d] => .ok (some d)
  | _ => .error (.repeatedOnMethod label controller m.name)

/-- The distinct shapes of the returned values, in the order in which they first come. -/
def returnShapes : List (Option Expr) → List Shape → Outcome (List Shape)
  | [], shapes => .ok shapes
  | value :: rest, shapes =>
    match Expr.returnShape? value with
    | some shape =>
      returnShapes rest (if shapes.contains shape then shapes else shapes ++ [shape])
    | none => .error (.noReturnType ((value.map Expr.describe).getD ""))

/-- The annotation for a set of returned shapes: nothing but `undefined` is `void`, and several
shapes are a union. -/
def annotationOf (shapes : List Shape) : TypeNode :=
  if shapes.all (· == .keyword .undefined) then .keyword .void
  else
    match shapes with
    | [shape] => shape.toNode
    | several => .union (several.map Shape.toNode)

/-- The declared return type, else the one that the returned values show. -/
def returnNode (m : MethodDecl) : Outcome TypeNode :=
  match m.returnType with
  | some node => .ok node
  | none => do
    let shapes ← returnShapes m.returns []
    .ok (annotationOf shapes)

def response (self : Resolver.Recursor) (d : Decorator) : Resolve Response := do
  let schema ← match d.typeArguments.head? with
    | some node => do
      let type ← self node {}
      pure (some type)
    | none => pure none
  let examples ← match d.argument? 2 with
    | some e => do
      let value ← Resolve.ofOutcome e.exampleValue
      pure (some value)
    | none => pure none
  pure
    { name := (d.nonEmptyText 0).getD "200", description := (d.nonEmptyText 1).getD ""
      schema, examples }

def responses (self : Resolver.Recursor) : List Decorator → Resolve (List Response)
  | [] => pure []
  | d :: rest => do
    let first ← response self d
    let others ← responses self rest
    pure (first :: others)

/-- The response of success: as its decorator says, else 200, or 204 for `void`, with the example of
the method. -/
def successResponse (controller : String) (m : MethodDecl) (type : ApiType) :
    Outcome Response := do
  match ← m.single controller .successResponse "SuccessResponse" with
  | some d =>
    .ok
      { name := (d.nonEmptyText 0).getD "200", description := (d.nonEmptyText 1).getD ""
        schema := some type, examples := none }
  | none =>
    let sample ← m.single controller .sample "Example"
    let examples ← match sample.bind (·.argument? 0) with
      | some e =>
        match e.exampleValue with
        | .ok value => .ok (some value)
        | .error cause => .error (.inMethod cause controller m.name)
      | none => .ok none
    .ok
      { name := if type.isVoid then "204" else "200"
        description := if type.isVoid then "No content" else "Ok"
        schema := some type, examples }

def generateParameters (self : Resolver.Recursor) (site : MethodSite) (controller method : String) :
    List ParameterDecl → Resolve (List Parameter)
  | [] => pure []
  | p :: rest => do
    let first ← Resolve.mapError (.inMethod · controller method) (site.parameter self p)
    let others ← generateParameters self site controller method rest
    pure (first :: others)

/-- A method has at most one body, and not both a body and properties of one. -/
def checkBodies (controller method : String) (ps : List Parameter) : Outcome Unit :=
  let bodies := (ps.filter (·.location == .body)).length
  let properties := (ps.filter (·.location == .bodyProperty)).length
  if 1 < bodies then .error (.manyBodies controller method)
  else if 0 < bodies ∧ 0 < properties then .error (.bodyAndProperties controller method)
  else .ok ()

/-- The security of a method: its own requirements, else those of its controller. -/
def security (controller : String) (m : MethodDecl) (inherited : List Security) :
    Outcome (List Security) :=
  match Decorator.ofKind .security m.decorators with
  | [] => .ok inherited
  | ds => ds.mapM fun d =>
    match d.securityRequirement with
    | .ok s => .ok s
    | .error cause => .error (.inMethod cause controller m.name)

/-- The tags of a method, and then those of its controller. -/
def tags (controller : String) (m : MethodDecl) (inherited : List String) :
    Outcome (List String) := do
  match ← m.single controller .tags "Tags" with
  | some d => .ok (d.texts ++ inherited)
  | none => .ok inherited

def generate (self : Resolver.Recursor) (controller : String) (m : MethodDecl)
    (route : Option MethodRoute) (inheritedTags : List String)
    (inheritedSecurity : List Security) : Resolve Method :=
  match route with
  | none => throw .notRoutable
  | some route => do
    let located {α : Type} (x : Resolve α) : Resolve α :=
      Resolve.mapError (.inMethod · controller m.name) x
    let node ← located (Resolve.ofOutcome m.returnNode)
    let type ← located (self node {})
    let listed ← located (responses self (Decorator.ofKind .response m.decorators))
    let success ← Resolve.ofOutcome (m.successResponse controller type)
    let parameters ←
      generateParameters self ⟨route.verb, route.path, m.doc⟩ controller m.name m.parameters
    Resolve.ofOutcome (checkBodies controller m.name parameters)
    let security ← Resolve.ofOutcome (m.security controller inheritedSecurity)
    let tags ← Resolve.ofOutcome (m.tags controller inheritedTags)
    let hidden ← Resolve.ofOutcome (m.single controller .hidden "Hidden")
    pure
      { name := m.name, verb := route.verb, path := route.path, parameters
        responses := listed ++ [success], type, security, tags
        hidden := hidden.isSome
        deprecated := (m.doc.map (·.hasTag "deprecated")).getD false
        description := m.doc.bind (·.description)
        summary := m.doc.bind (·.tagComment "summary") }

end MethodDecl

/-! ## Paths -/

namespace Path

/-- A path without the slashes at its ends. -/
def trimSlashes (s : String) : String := Text.strip (· == '/') s

/-- Two paths with one slash between them; a path that is empty without its slashes adds nothing. -/
def join (base path : String) : String :=
  let base := trimSlashes base
  let path := trimSlashes path
  if base.isEmpty then path else if path.isEmpty then base else base ++ "/" ++ path

end Path
end DecoratedApi
