import DecoratedApi.Document.Fields
import DecoratedApi.Schema.Definition

/-!
# Schemas of OpenAPI documents

The part of the schema language that metadata can express. Named types become references to the
schemas of the document's components.
-/

namespace DecoratedApi.OpenApi

/-- A schema. Keywords that are absent are not written. -/
structure Schema where
  reference : Option String := none
  type : Option String := none
  format : Option String := none
  description : Option String := none
  items : Option Schema := none
  properties : Option (List (String × Schema)) := none
  required : Option (List String) := none
  additional : Option Schema := none
  enumValues : Option (List Json) := none
  fallback : Option Json := none
  minimum : Option Json := none
  maximum : Option Json := none
  minLength : Option Json := none
  maxLength : Option Json := none
  pattern : Option String := none
  minItems : Option Json := none
  maxItems : Option Json := none
  uniqueItems : Option Bool := none
deriving Inhabited

namespace Schema

/-- The path of the components' schemas in a document. -/
def componentPath : String := "#/components/schemas/"

/-- A schema that is a type word and perhaps a format. -/
def typed (type : String) (format : Option String := none) : Schema :=
  { type := some type, format }

def ofName (name : String) : Schema := { reference := some (componentPath ++ name) }

/-- The schema of a list of values: all strings, all numbers, or of any type. -/
def ofValues (values : List Json) : Schema :=
  { type :=
      if values.all Json.isString then some "string"
      else if values.all Json.isNumber then some "number"
      else none
    enumValues := some values }

/-- The schema of a type. `any` and `void` allow everything. -/
def ofType : ApiType → Schema
  | .string => typed "string"
  | .double => typed "number" (some "double")
  | .float => typed "number" (some "float")
  | .integer => typed "integer" (some "int32")
  | .long => typed "integer" (some "int64")
  | .boolean => typed "boolean"
  | .date => typed "string" (some "date")
  | .datetime => typed "string" (some "date-time")
  | .buffer => typed "string" (some "byte")
  | .object => typed "object"
  | .void | .any => {}
  | .array element => { typed "array" with items := some (ofType element) }
  | .enum values => ofValues values
  | .refObject name | .refEnum name => ofName name

/-- Sets the keyword of one validator, if there is one for it. -/
def applyValidator (s : Schema) (name : String) (v : Validator) : Schema :=
  match name with
  | "minimum" => { s with minimum := v.value }
  | "maximum" => { s with maximum := v.value }
  | "minLength" => { s with minLength := v.value }
  | "maxLength" => { s with maxLength := v.value }
  | "minItems" => { s with minItems := v.value }
  | "maxItems" => { s with maxItems := v.value }
  | "uniqueItems" => { s with uniqueItems := some true }
  | "pattern" => { s with pattern := v.value.bind Json.string? }
  | _ => s

def applyValidators (s : Schema) (vs : Validators) : Schema :=
  vs.foldl (fun s (name, v) => s.applyValidator name v) s

/-- The schema of a property. A reference has no description beside it. -/
def ofProperty (p : Property) : Schema :=
  let s := ofType p.type
  let s := if s.reference.isNone then { s with description := p.description } else s
  { s with fallback := p.fallback }.applyValidators p.validators

/-- A list that is absent when it is empty. -/
def unlessEmpty (names : List String) : Option (List String) :=
  if names.isEmpty then none else some names

def ofObject (d : ObjectDefinition) : Schema :=
  { typed "object" with
    description := d.description
    properties := some (OrderedMap.ofList (d.properties.map fun p => (p.name, ofProperty p)))
    required := unlessEmpty ((d.properties.filter (·.required)).map (·.name))
    additional := d.additional.map ofType }

def ofEnum (d : EnumDefinition) : Schema := { ofValues d.values with description := d.description }

def ofDefinition : Definition → Schema
  | .object d => ofObject d
  | .enum d => ofEnum d

/-! ## Writing -/

mutual
def toJson : Schema → Json
  | ⟨reference, type, format, description, items, properties, required, additional, enumValues,
      fallback, minimum, maximum, minLength, maxLength, pattern, minItems, maxItems,
      uniqueItems⟩ =>
    .object (Fields.optional .string "$ref" reference ++ Fields.optional .string "type" type ++
      Fields.optional .string "format" format ++
      Fields.optional .string "description" description ++ optionalJson "items" items ++
      (match properties with
        | some ps => Fields.one "properties" (.object (propertiesJson ps))
        | none => []) ++
      Fields.optional Json.ofStrings "required" required ++
      optionalJson "additionalProperties" additional ++
      Fields.optional .array "enum" enumValues ++ Fields.optional id "default" fallback ++
      Fields.optional id "minimum" minimum ++ Fields.optional id "maximum" maximum ++
      Fields.optional id "minLength" minLength ++ Fields.optional id "maxLength" maxLength ++
      Fields.optional .string "pattern" pattern ++ Fields.optional id "minItems" minItems ++
      Fields.optional id "maxItems" maxItems ++ Fields.optional .bool "uniqueItems" uniqueItems)

def optionalJson (key : String) : Option Schema → Fields
  | none => []
  | some s => [(key, toJson s)]

def propertiesJson : List (String × Schema) → List (String × Json)
  | [] => []
  | (k, s) :: rest => (k, toJson s) :: propertiesJson rest
end

end Schema
end DecoratedApi.OpenApi
