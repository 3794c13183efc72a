import DecoratedApi.OpenApi.Schema
import DecoratedApi.Route.MethodOf

/-!
# OpenAPI documents

A document is built by adding controllers and definitions. Each visible method becomes an operation
under its path; a later method with the same path and verb replaces an earlier one.
-/

namespace DecoratedApi.OpenApi

/-- What a document says about itself. -/
structure Info where
  title : String := "Generated API"
  version : String := "1.0.0"
  description : Option String := none

structure OperationParameter where
  name : String
  location : String
  required : Bool
  description : Option String
  schema : Schema

/-- The content of a body or a response. -/
structure MediaType where
  schema : Schema
  sample : Option Json

structure RequestBody where
  description : Option String
  required : Bool
  content : OrderedMap MediaType

structure OperationResponse where
  description : String
  content : Option (OrderedMap MediaType)

structure Operation where
  operationId : String
  tags : List String
  summary : Option String
  description : Option String
  deprecated : Bool
  parameters : List OperationParameter
  requestBody : Option RequestBody
  responses : OrderedMap OperationResponse
  security : List (OrderedMap (List String))

structure PathItem where
  get : Option Operation := none
  post : Option Operation := none
  put : Option Operation := none
  delete : Option Operation := none
  patch : Option Operation := none
  options : Option Operation := none
  head : Option Operation := none

namespace PathItem

def operation (item : PathItem) : Verb → Option Operation
  | .get => item.get
  | .post => item.post
  | .put => item.put
  | .delete => item.delete
  | .patch => item.patch
  | .options => item.options
  | .head => item.head

def withOperation (item : PathItem) (verb : Verb) (op : Operation) : PathItem :=
  match verb with
  | .get => { item with get := some op }
  | .post => { item with post := some op }
  | .put => { item with put := some op }
  | .delete => { item with delete := some op }
  | .patch => { item with patch := some op }
  | .options => { item with options := some op }
  | .head => { item with head := some op }

theorem operation_withOperation_self (item : PathItem) (verb : Verb) (op : Operation) :
    (item.withOperation verb op).operation verb = some op := by
  cases verb <;> rfl

theorem operation_withOperation_of_ne (item : PathItem) {verb other : Verb} (h : other ≠ verb)
    (op : Operation) : (item.withOperation verb op).operation other = item.operation other := by
  cases verb <;> cases other <;> first | rfl | exact absurd rfl h

end PathItem

structure Document where
  info : Info := {}
  paths : OrderedMap PathItem := []
  schemas : OrderedMap Schema := []

/-! ## Operations -/

/-- The media type of all bodies. -/
def jsonMediaType : String := "application/json"

def jsonContent (schema : Schema) (sample : Option Json) : OrderedMap MediaType :=
  [(jsonMediaType, ⟨schema, sample⟩)]

def parameterSchema (p : Parameter) : Schema :=
  { Schema.ofType p.type with fallback := p.fallback }.applyValidators p.validators

/-- A parameter outside the body. -/
def operationParameter? (p : Parameter) : Option OperationParameter :=
  let param : OperationParameter :=
    ⟨p.name, p.location.text, p.required, p.description, parameterSchema p⟩
  match p.location with
  | .path | .query | .header => some param
  | .formData | .body | .bodyProperty | .request => none

/-- The object that the properties of a body form. -/
def bodySchema (ps : List Parameter) : Schema :=
  { Schema.typed "object" with
    properties := some (OrderedMap.ofList
      (ps.map fun p => (p.name, { parameterSchema p with description := p.description })))
    required := Schema.unlessEmpty ((ps.filter (·.required)).map (·.name)) }

/-- The body of a request: the body parameter, else the properties of a body together. -/
def requestBody? (ps : List Parameter) : Option RequestBody :=
  match ps.find? (·.location == .body) with
  | some body =>
    some ⟨body.description, body.required, jsonContent (parameterSchema body) none⟩
  | none =>
    match ps.filter (·.location == .bodyProperty) with
    | [] => none
    | props => some ⟨none, props.any (·.required), jsonContent (bodySchema props) none⟩

/-- A response; one without a value has no content. -/
def operationResponse (r : Response) : OperationResponse :=
  { description := r.description
    content :=
      match r.schema with
      | none | some .void => none
      | some type => some (jsonContent (Schema.ofType type) r.examples) }

def operationOf (m : Method) : Operation :=
  { operationId := m.name
    tags := m.tags
    summary := m.summary
    description := m.description
    deprecated := m.deprecated
    parameters := m.parameters.filterMap operationParameter?
    requestBody := requestBody? m.parameters
    responses := OrderedMap.ofList (m.responses.map fun r => (r.name, operationResponse r))
    security := m.security.map fun s => [(s.name, s.scopes.getD [])] }

namespace Document

def pathOf (c : Controller) (m : Method) : String := "/" ++ Path.join c.path m.path

def addOperation (doc : Document) (path : String) (verb : Verb) (op : Operation) : Document :=
  let item := (OrderedMap.find? path doc.paths).getD {}
  { doc with paths := OrderedMap.set path (item.withOperation verb op) doc.paths }

/-- Adds a method, unless it is hidden. -/
def addMethod (c : Controller) (doc : Document) (m : Method) : Document :=
  if m.hidden then doc else doc.addOperation (pathOf c m) m.verb (operationOf m)

/-- Adds the visible methods of a controller. -/
def addController (doc : Document) (c : Controller) : Document :=
  c.methods.foldl (addMethod c) doc

def addDefinition (doc : Document) (entry : String × Definition) : Document :=
  { doc with schemas := OrderedMap.set entry.1 (Schema.ofDefinition entry.2) doc.schemas }

def addMetadata (doc : Document) (m : Metadata) : Document :=
  m.definitions.foldl addDefinition (m.controllers.foldl addController doc)

end Document

/-! ## Writing -/

def MediaType.toJson (m : MediaType) : Json :=
  .object (Fields.one "schema" m.schema.toJson ++ Fields.optional id "example" m.sample)

def contentJson (content : OrderedMap MediaType) : Json :=
  .object (content.map fun (k, m) => (k, m.toJson))

def OperationParameter.toJson (p : OperationParameter) : Json :=
  .object (Fields.one "name" (.string p.name) ++ Fields.one "in" (.string p.location) ++
    Fields.one "required" (.bool p.required) ++
    Fields.optional .string "description" p.description ++ Fields.one "schema" p.schema.toJson)

def RequestBody.toJson (b : RequestBody) : Json :=
  .object (Fields.optional .string "description" b.description ++
    Fields.one "required" (.bool b.required) ++ Fields.one "content" (contentJson b.content))

def OperationResponse.toJson (r : OperationResponse) : Json :=
  .object (Fields.one "description" (.string r.description) ++
    Fields.optional contentJson "content" r.content)

def Operation.toJson (op : Operation) : Json :=
  .object (Fields.one "operationId" (.string op.operationId) ++
    Fields.unlessEmpty .string "tags" op.tags ++ Fields.optional .string "summary" op.summary ++
    Fields.optional .string "description" op.description ++
    (if op.deprecated then Fields.one "deprecated" (.bool true) else []) ++
    Fields.unlessEmpty OperationParameter.toJson "parameters" op.parameters ++
    Fields.optional RequestBody.toJson "requestBody" op.requestBody ++
    Fields.one "responses" (.object (op.responses.map fun (k, r) => (k, r.toJson))) ++
    Fields.unlessEmpty
      (fun r => .object (r.map fun (k, scopes) => (k, Json.ofStrings scopes)))
      "security" op.security)

/-- The verbs in the order in which a path lists them. -/
def verbOrder : List Verb := [.get, .post, .put, .delete, .patch, .options, .head]

def PathItem.toJson (item : PathItem) : Json :=
  .object (verbOrder.flatMap fun v => Fields.optional Operation.toJson v.text (item.operation v))

def Info.toJson (i : Info) : Json :=
  .object (Fields.one "title" (.string i.title) ++ Fields.one "version" (.string i.version) ++
    Fields.optional .string "description" i.description)

/-- The version of the specification that documents follow. -/
def specificationVersion : String := "3.0.0"

/-- The document. Components are written only when there are any. -/
def Document.toJson (doc : Document) : Json :=
  .object (Fields.one "openapi" (.string specificationVersion) ++
    Fields.one "info" doc.info.toJson ++
    Fields.one "paths" (.object (doc.paths.map fun (k, item) => (k, item.toJson))) ++
    (if doc.schemas.isEmpty then []
      else Fields.one "components" (.object
        [("schemas", .object (doc.schemas.map fun (k, s) => (k, s.toJson)))])))

end DecoratedApi.OpenApi
