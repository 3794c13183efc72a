import DecoratedApi.Document.Fields
import DecoratedApi.Route.Metadata

/-!
# Metadata as JSON

Each part of a metadata document is written as an object, and read back from one. Types and
definitions are told apart by their `dataType`.
-/

namespace DecoratedApi

/-! ## Writing -/

def ApiType.toJson : ApiType → Json
  | array element => .object [("dataType", .string "array"), ("elementType", element.toJson)]
  | enum values => .object [("dataType", .string "enum"), ("enums", .array values)]
  | refObject name => .object [("dataType", .string "refObject"), ("refName", .string name)]
  | refEnum name => .object [("dataType", .string "refEnum"), ("refName", .string name)]
  | t => .object [("dataType", .string t.tag)]

def Validator.toJson (v : Validator) : Json :=
  .object (Fields.optional id "value" v.value ++ Fields.optional .string "errorMsg" v.message)

/-- The object with one member for each keyword. -/
def Validators.toJson (vs : Validators) : Json := .object (vs.map fun (k, v) => (k, v.toJson))

def Property.toJson (p : Property) : Json :=
  .object (Fields.one "name" (.string p.name) ++ Fields.one "type" p.type.toJson ++
    Fields.one "required" (.bool p.required) ++
    Fields.optional .string "description" p.description ++
    Fields.optional id "default" p.fallback ++
    Fields.one "validators" (Validators.toJson p.validators))

def ObjectDefinition.fields (d : ObjectDefinition) : Fields :=
  Fields.one "refName" (.string d.name) ++ Fields.optional .string "description" d.description ++
    Fields.one "properties" (.array (d.properties.map Property.toJson)) ++
    Fields.optional ApiType.toJson "additionalProperties" d.additional

def EnumDefinition.fields (d : EnumDefinition) : Fields :=
  Fields.one "refName" (.string d.name) ++ Fields.optional .string "description" d.description ++
    Fields.one "enums" (.array d.values)

def Definition.toJson : Definition → Json
  | object d => .object (("dataType", .string "refObject") :: d.fields)
  | enum d => .object (("dataType", .string "refEnum") :: d.fields)

def Parameter.toJson (p : Parameter) : Json :=
  .object (Fields.one "in" (.string p.location.text) ++ Fields.one "name" (.string p.name) ++
    Fields.one "parameterName" (.string p.parameterName) ++
    Fields.one "required" (.bool p.required) ++ Fields.one "type" p.type.toJson ++
    Fields.optional id "default" p.fallback ++
    Fields.one "validators" (Validators.toJson p.validators) ++
    Fields.optional .string "description" p.description)

def Security.toJson (s : Security) : Json :=
  .object (Fields.one "name" (.string s.name) ++ Fields.optional Json.ofStrings "scopes" s.scopes)

def Response.toJson (r : Response) : Json :=
  .object (Fields.one "name" (.string r.name) ++
    Fields.one "description" (.string r.description) ++
    Fields.optional ApiType.toJson "schema" r.schema ++ Fields.optional id "examples" r.examples)

def Method.toJson (m : Method) : Json :=
  .object (Fields.one "name" (.string m.name) ++ Fields.one "method" (.string m.verb.text) ++
    Fields.one "path" (.string m.path) ++
    Fields.one "parameters" (.array (m.parameters.map Parameter.toJson)) ++
    Fields.one "responses" (.array (m.responses.map Response.toJson)) ++
    Fields.one "type" m.type.toJson ++
    Fields.one "security" (.array (m.security.map Security.toJson)) ++
    Fields.one "tags" (Json.ofStrings m.tags) ++ Fields.one "isHidden" (.bool m.hidden) ++
    Fields.one "deprecated" (.bool m.deprecated) ++
    Fields.optional .string "description" m.description ++
    Fields.optional .string "summary" m.summary)

def Controller.toJson (c : Controller) : Json :=
  .object (Fields.one "name" (.string c.name) ++ Fields.one "location" (.string c.location) ++
    Fields.one "path" (.string c.path) ++
    Fields.one "methods" (.array (c.methods.map Method.toJson)))

def Metadata.toJson (m : Metadata) : Json :=
  .object (Fields.one "controllers" (.array (m.controllers.map Controller.toJson)) ++
    Fields.one "referenceTypeMap" (.object (m.definitions.map fun (k, d) => (k, d.toJson))))

/-! ## Reading -/

/-- The types that are their tag alone. -/
def ApiType.simple : List ApiType :=
  [.string, .double, .float, .integer, .long, .boolean, .date, .datetime, .buffer, .void, .object,
    .any]

mutual
def ApiType.ofJson? : Json → Option ApiType
  | .object members =>
    match (OrderedMap.find? "dataType" members).bind Json.string? with
    | some "array" => (ApiType.elementOf? members).map .array
    | some "enum" => ((OrderedMap.find? "enums" members).bind (Json.list? Json.any?)).map .enum
    | some "refObject" => ((OrderedMap.find? "refName" members).bind Json.string?).map .refObject
    | some "refEnum" => ((OrderedMap.find? "refName" members).bind Json.string?).map .refEnum
    | some tag => ApiType.simple.find? (·.tag == tag)
    | none => none
  | _ => none

/-- The type under `elementType`. -/
def ApiType.elementOf? : List (String × Json) → Option ApiType
  | [] => none
  | (k, v) :: rest => if k = "elementType" then ApiType.ofJson? v else ApiType.elementOf? rest
end

/-- Objects only: other values have no fields, and are refused even where no field is needed. -/
def Json.isObject : Json → Bool
  | object _ => true
  | _ => false

def Validator.ofJson? (v : Json) : Option Validator := do
  if !v.isObject then none
  let value ← v.optionalField? Json.any? "value"
  let message ← v.optionalField? Json.string? "errorMsg"
  some { value, message }

/-- The validators under a field; they may be missing. -/
def Validators.field? (v : Json) : Option Validators :=
  match v.field? "validators" with
  | none => some []
  | some x => x.members? Validator.ofJson?

def Property.ofJson? (v : Json) : Option Property := do
  let name ← v.requiredField? Json.string? "name"
  let type ← v.requiredField? ApiType.ofJson? "type"
  let required ← v.requiredField? Json.bool? "required"
  let description ← v.optionalField? Json.string? "description"
  let fallback ← v.optionalField? Json.any? "default"
  let validators ← Validators.field? v
  some { name, type, required, description, fallback, validators }

def ObjectDefinition.ofJson? (v : Json) : Option ObjectDefinition := do
  let name ← v.requiredField? Json.string? "refName"
  let description ← v.optionalField? Json.string? "description"
  let properties ← v.requiredField? (Json.list? Property.ofJson?) "properties"
  let additional ← v.optionalField? ApiType.ofJson? "additionalProperties"
  some { name, description, properties, additional }

def EnumDefinition.ofJson? (v : Json) : Option EnumDefinition := do
  let name ← v.requiredField? Json.string? "refName"
  let description ← v.optionalField? Json.string? "description"
  let values ← v.requiredField? (Json.list? Json.any?) "enums"
  some { name, description, values }

def Definition.ofJson? (v : Json) : Option Definition :=
  match v.requiredField? Json.string? "dataType" with
  | some "refObject" => (ObjectDefinition.ofJson? v).map .object
  | some "refEnum" => (EnumDefinition.ofJson? v).map .enum
  | _ => none

def Parameter.ofJson? (v : Json) : Option Parameter := do
  let location ← v.requiredField? (fun x => x.string?.bind Location.ofText?) "in"
  let name ← v.requiredField? Json.string? "name"
  let parameterName ← v.requiredField? Json.string? "parameterName"
  let required ← v.requiredField? Json.bool? "required"
  let type ← v.requiredField? ApiType.ofJson? "type"
  let fallback ← v.optionalField? Json.any? "default"
  let validators ← Validators.field? v
  let description ← v.optionalField? Json.string? "description"
  some { location, name, parameterName, required, type, fallback, validators, description }

def Security.ofJson? (v : Json) : Option Security := do
  let name ← v.requiredField? Json.string? "name"
  let scopes ← v.optionalField? (Json.list? Json.string?) "scopes"
  some { name, scopes }

def Response.ofJson? (v : Json) : Option Response := do
  let name ← v.requiredField? Json.string? "name"
  let description ← v.requiredField? Json.string? "description"
  let schema ← v.optionalField? ApiType.ofJson? "schema"
  let examples ← v.optionalField? Json.any? "examples"
  some { name, description, schema, examples }

def Method.ofJson? (v : Json) : Option Method := do
  let name ← v.requiredField? Json.string? "name"
  let verb ← v.requiredField? (fun x => x.string?.bind Verb.ofText?) "method"
  let path ← v.requiredField? Json.string? "path"
  let parameters ← v.requiredField? (Json.list? Parameter.ofJson?) "parameters"
  let responses ← v.requiredField? (Json.list? Response.ofJson?) "responses"
  let type ← v.requiredField? ApiType.ofJson? "type"
  let security ← v.requiredField? (Json.list? Security.ofJson?) "security"
  let tags ← v.requiredField? (Json.list? Json.string?) "tags"
  let hidden ← v.requiredField? Json.bool? "isHidden"
  let deprecated ← v.requiredField? Json.bool? "deprecated"
  let description ← v.optionalField? Json.string? "description"
  let summary ← v.optionalField? Json.string? "summary"
  some { name, verb, path, parameters, responses, type, security, tags, hidden, deprecated,
         description, summary }

def Controller.ofJson? (v : Json) : Option Controller := do
  let name ← v.requiredField? Json.string? "name"
  let location ← v.requiredField? Json.string? "location"
  let path ← v.requiredField? Json.string? "path"
  let methods ← v.requiredField? (Json.list? Method.ofJson?) "methods"
  some { name, location, path, methods }

def Metadata.ofJson? (v : Json) : Option Metadata := do
  let controllers ← v.requiredField? (Json.list? Controller.ofJson?) "controllers"
  let definitions ← v.requiredField? (Json.members? Definition.ofJson?) "referenceTypeMap"
  some { controllers, definitions }

end DecoratedApi
