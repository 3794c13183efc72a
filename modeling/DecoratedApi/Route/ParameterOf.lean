import DecoratedApi.Reference.Resolver
import DecoratedApi.Route.Metadata

/-!
# Parameters of methods

A parameter is bound by the decorator that wins; without one it belongs to the path. Its hints,
validators and description come from the comment of its method, where they name the parameter.
-/

namespace DecoratedApi

/-- What a parameter has to know about its method. -/
structure MethodSite where
  verb : Verb
  path : String
  doc : Option DocComment

namespace ParameterDecl

/-- The annotation of a parameter: the written one, else the one that its initializer shows. -/
def typeNode (p : ParameterDecl) : TypeNode :=
  match p.type with
  | some node => node
  | none =>
    match p.initializer with
    | some e => e.shape.toNode
    | none => .keyword .any

/-- Whether a request has to give the parameter. -/
def isRequired (p : ParameterDecl) : Bool := !p.optional && p.initializer.isNone

/-- The default of a parameter: the value of its initializer, fitted to its type. A literal type is
its own default. -/
def defaultValue (p : ParameterDecl) (type : ApiType) : Outcome (Option Json) :=
  match p.initializer with
  | some e => type.defaultOf e
  | none =>
    match p.typeNode with
    | .literal l => .ok (some l.value)
    | _ => .ok none

end ParameterDecl

namespace MethodSite

def hints (site : MethodSite) (name : String) : FormatHints :=
  .ofTags ((site.doc.map (·.parameterTags name)).getD [])

def description (site : MethodSite) (name : String) : Option String :=
  site.doc.bind (·.paramDescription name)

def validators (site : MethodSite) (name : String) : Outcome Validators :=
  Validators.ofParameter site.doc name

/-- The place of a parameter in a path. -/
def placeholder (name : String) : String := "\x7b" ++ name ++ "\x7d"

def hasPlaceFor (site : MethodSite) (name : String) : Bool :=
  Text.occursIn (placeholder name).toList site.path.toList

end MethodSite

namespace Binding

/-- Refuses types that cannot travel where the parameter is bound. A query may repeat a value, so
there an array of a type that can travel is fine. -/
def checkType (b : Binding) (name : String) (type : ApiType) : Outcome Unit :=
  match b, type with
  | .query, .array element =>
    if element.isWireSafe then .ok () else .error (.arrayType b.decorator name element)
  | _, _ => if type.isWireSafe then .ok () else .error (.wireType b.decorator name type)

end Binding

namespace MethodSite

variable (site : MethodSite) (self : Resolver.Recursor) (p : ParameterDecl)

def requestParameter (name : String) : Resolve Parameter := do
  let validators ← Resolve.ofOutcome (site.validators name)
  pure
    { location := .request, name, parameterName := name, required := p.isRequired
      type := .object, fallback := none, validators, description := site.description name }

def bodyParameter (name : String) : Resolve Parameter := do
  let type ← self p.typeNode { hints := site.hints name }
  if !site.verb.acceptsBody then
    throw (.bodyVerb Binding.body.decorator name (Text.asciiUpper site.verb.text))
  let validators ← Resolve.ofOutcome (site.validators name)
  pure
    { location := .body, name, parameterName := name, required := p.isRequired
      type, fallback := none, validators, description := site.description name }

/-- A parameter that is one property of the body. -/
def bodyPropertyParameter (name wireName : String) : Resolve Parameter := do
  let type ← self p.typeNode { hints := site.hints name }
  if !site.verb.acceptsBody then
    throw (.bodyVerb Binding.bodyProperty.decorator name (Text.asciiUpper site.verb.text))
  let fallback ← Resolve.ofOutcome (p.defaultValue type)
  let validators ← Resolve.ofOutcome (site.validators name)
  pure
    { location := .bodyProperty, name := wireName, parameterName := name
      required := p.isRequired, type, fallback, validators
      description := site.description name }

/-- A parameter that travels outside the body: in a header, the query or the path. -/
def wireParameter (b : Binding) (name wireName : String) : Resolve Parameter := do
  let type ← self p.typeNode { hints := site.hints name, extractEnum := false }
  Resolve.ofOutcome (b.checkType name type)
  if b = .path ∧ !site.hasPlaceFor wireName then throw (.pathMismatch name site.path)
  let fallback ← Resolve.ofOutcome (p.defaultValue type)
  let validators ← Resolve.ofOutcome (site.validators name)
  pure
    { location := b.location, name := wireName, parameterName := name
      required := b == .path || p.isRequired, type, fallback, validators
      description := site.description name }

/-- The metadata of a parameter. The name in requests is the text in its decorator, if any. -/
def parameter : Resolve Parameter :=
  match p.name with
  | none => throw .destructured
  | some name =>
    let selected := Binding.select p.decorators
    let wireName := (((selected.bind fun (_, d) => d.textArgument 0)).filter (!·.isEmpty)).getD name
    match (selected.map (·.1)).getD .path with
    | .request => requestParameter site p name
    | .body => bodyParameter site self p name
    | .bodyProperty => bodyPropertyParameter site self p name wireName
    | .header => wireParameter site self p .header name wireName
    | .query => wireParameter site self p .query name wireName
    | .path => wireParameter site self p .path name wireName

end MethodSite
end DecoratedApi
