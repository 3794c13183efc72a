import DecoratedApi.Route.MethodOf

/-!
# Controllers and whole programs

A class with a `@Route` is a controller. The metadata of a program are those of its controllers, in
order, with the definitions of all types that they needed.
-/

namespace DecoratedApi

namespace ClassDecl

/-- The decorator that makes the class a controller. Two are refused. -/
def route? (c : ClassDecl) : Outcome (Option Decorator) :=
  match Decorator.ofKind .route c.decorators with
  | [] => .ok none
  | [d] => .ok (some d)
  | _ => .error (.repeatedOnClass "Route" c.name)

/-- The tags that all methods of the class inherit. -/
def tags (c : ClassDecl) : Outcome (List String) :=
  match Decorator.ofKind .tags c.decorators with
  | [] => .ok []
  | [d] => .ok d.texts
  | _ => .error (.repeatedOnClass "Tags" c.name)

/-- The security that methods without their own inherit. -/
def security (c : ClassDecl) : Outcome (List Security) :=
  (Decorator.ofKind .security c.decorators).mapM fun d =>
    match d.securityRequirement with
    | .ok s => .ok s
    | .error cause => .error (.inClass cause c.name)

def generateMethods (self : Resolver.Recursor) (controller : String) (tags : List String)
    (security : List Security) : List MethodDecl → Resolve (List Method)
  | [] => pure []
  | m :: rest => do
    match ← Resolve.ofOutcome (m.route? controller) with
    | none => generateMethods self controller tags security rest
    | some route =>
      let first ← m.generate self controller (some route) tags security
      let others ← generateMethods self controller tags security rest
      pure (first :: others)

/-- The metadata of a controller, given the decorator that makes it one. -/
def generate (self : Resolver.Recursor) (location : String) (route : Option Decorator)
    (c : ClassDecl) : Resolve Controller := do
  let tags ← Resolve.ofOutcome c.tags
  let security ← Resolve.ofOutcome c.security
  let methods ← generateMethods self c.name tags security c.methods
  pure
    { name := c.name, location, path := (route.bind (·.textArgument 0)).getD "", methods }

end ClassDecl

namespace Program

/-- The classes of a program, each with the path of its unit. -/
def classes (p : Program) : List (String × ClassDecl) :=
  p.units.flatMap fun u => u.declarations.filterMap fun d => (d.class?).map (u.path, ·)

def generateControllers (self : Resolver.Recursor) :
    List (String × ClassDecl) → Resolve (List Controller)
  | [] => pure []
  | (location, c) :: rest => do
    match ← Resolve.ofOutcome c.route? with
    | none => generateControllers self rest
    | some route =>
      let first ← c.generate self location (some route)
      let others ← generateControllers self rest
      pure (first :: others)

/-- The metadata of a program whose types are nested at most `depth` deep. -/
def metadataAt (depth : Nat) (p : Program) : Option (Outcome Metadata) :=
  match (generateControllers (Resolver.resolve p depth) p.classes).runFrom {} with
  | none => none
  | some (.error e, _) => some (.error e)
  | some (.ok controllers, s) =>
    match Resolver.finish s with
    | .ok definitions => some (.ok { controllers, definitions })
    | .error e => some (.error e)

/-- The metadata of a program. It has an answer unless the types nest without end. -/
def metadata (p : Program) : Option (Outcome Metadata) := p.metadataAt Resolver.ampleDepth

end Program
end DecoratedApi
