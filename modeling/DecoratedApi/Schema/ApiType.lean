import DecoratedApi.Json.Value

/-!
# Normalized types

The types of a metadata document. A named type is known by its name alone; its definition stands in
the table of definitions.
-/

namespace DecoratedApi

/-- A normalized type. -/
inductive ApiType
  | string
  | double
  | float
  | integer
  | long
  | boolean
  | date
  | datetime
  | buffer
  | void
  | object
  | any
  | array (element : ApiType)
  | enum (values : List Json)
  | refObject (name : String)
  | refEnum (name : String)
deriving Inhabited, Repr

namespace ApiType

/-- The tag that tells the types apart in a document. -/
def tag : ApiType → String
  | string => "string"
  | double => "double"
  | float => "float"
  | integer => "integer"
  | long => "long"
  | boolean => "boolean"
  | date => "date"
  | datetime => "datetime"
  | buffer => "buffer"
  | void => "void"
  | object => "object"
  | any => "any"
  | array _ => "array"
  | enum _ => "enum"
  | refObject _ => "refObject"
  | refEnum _ => "refEnum"

/-- Whether a value of the type can travel in a path segment, a query string or a header. -/
def isWireSafe : ApiType → Bool
  | string | integer | long | float | double | date | datetime | buffer | boolean | enum _ | any =>
    true
  | void | object | array _ | refObject _ | refEnum _ => false

def isVoid : ApiType → Bool
  | void => true
  | _ => false

/-- The name of a named type. -/
def refName? : ApiType → Option String
  | refObject name => some name
  | refEnum name => some name
  | _ => none

/-- The name that occurs in a type, at any depth of arrays. -/
def mentioned? : ApiType → Option String
  | array element => mentioned? element
  | t => t.refName?

end ApiType
end DecoratedApi
