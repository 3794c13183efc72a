import DecoratedApi.Route.Vocabulary
import DecoratedApi.Schema.Definition

/-!
# Metadata documents

What is known about an API: its controllers with their methods, and the definitions of the named
types that they mention, in the order in which they were first met.
-/

namespace DecoratedApi

/-- A parameter of a method. `name` is the name in requests, `parameterName` that in the source. -/
structure Parameter where
  location : Location
  name : String
  parameterName : String
  required : Bool
  type : ApiType
  fallback : Option Json
  validators : Validators
  description : Option String

/-- A security requirement: a scheme, and the scopes that are all needed. -/
structure Security where
  name : String
  scopes : Option (List String)
deriving DecidableEq, Repr

structure Response where
  name : String
  description : String
  schema : Option ApiType
  examples : Option Json

/-- A method of a controller that answers requests. -/
structure Method where
  name : String
  verb : Verb
  path : String
  parameters : List Parameter
  responses : List Response
  type : ApiType
  security : List Security
  tags : List String
  hidden : Bool
  deprecated : Bool
  description : Option String
  summary : Option String

/-- A controller. `location` is the path of its source. -/
structure Controller where
  name : String
  location : String
  path : String
  methods : List Method

structure Metadata where
  controllers : List Controller
  definitions : List (String × Definition)

end DecoratedApi
