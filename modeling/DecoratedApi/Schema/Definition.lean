import DecoratedApi.Schema.ApiType

/-!
# Definitions of named types

An object definition lists its properties; an enum definition lists its values. A type that extends
another takes over the properties that it does not declare itself.
-/

namespace DecoratedApi

/-- The setting of one validator keyword. -/
structure Validator where
  value : Option Json
  message : Option String
deriving Inhabited

/-- Validator keywords and their settings, in the order in which the keywords first came. -/
abbrev Validators := List (String × Validator)

structure Property where
  name : String
  type : ApiType
  required : Bool
  description : Option String
  fallback : Option Json
  validators : Validators
deriving Inhabited

/-- A named object type. `additional` is the type of the properties that are not listed. -/
structure ObjectDefinition where
  name : String
  description : Option String
  properties : List Property
  additional : Option ApiType
deriving Inhabited

structure EnumDefinition where
  name : String
  description : Option String
  values : List Json
deriving Inhabited

/-- A named type. -/
inductive Definition
  | object (d : ObjectDefinition)
  | enum (d : EnumDefinition)
deriving Inhabited

namespace Definition

def name : Definition → String
  | object d => d.name
  | enum d => d.name

def object? : Definition → Option ObjectDefinition
  | object d => some d
  | enum _ => none

end Definition

namespace ObjectDefinition

/-- Whether a property of this name is listed. -/
def declares (d : ObjectDefinition) (name : String) : Bool := d.properties.any (·.name == name)

/-- Adds a property at the end unless its name is already listed. -/
def addMissing (ps : List Property) (p : Property) : List Property :=
  if ps.any (·.name == p.name) then ps else ps ++ [p]

/-- Takes over what `base` has and `d` has not: its properties of other names, and the type of
additional properties. -/
def inherit (d base : ObjectDefinition) : ObjectDefinition :=
  { d with
    properties := base.properties.foldl addMissing d.properties
    additional := d.additional <|> base.additional }

end ObjectDefinition
end DecoratedApi
