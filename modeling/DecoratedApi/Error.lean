import DecoratedApi.Json.Printer
import DecoratedApi.Schema.ApiType

/-!
# What can be wrong with a program

Each cause that stops the generation of metadata, and its message. A cause found in a method or on a
class is wrapped in the place where it was found.
-/

namespace DecoratedApi

/-- Why no metadata can be generated. -/
inductive GenerateError
  /-- The value of an expression cannot be read off its text. -/
  | notStatic (text : String)
  /-- A default of an integer type has a fractional part. -/
  | notInteger (value : Json)
  /-- A default is not listed by its enum. -/
  | notListed (value : Json)
  /-- A default has the wrong kind for its type. -/
  | wrongKind (value : Json) (type : ApiType)
  /-- A text or number is no date. -/
  | invalidDate (text : String)
  /-- A tag needs a number. -/
  | tagNumber (tag found : String)
  /-- A tag needs a value. -/
  | tagValue (tag : String)
  /-- A placeholder is left in the table. -/
  | neverResolved (name : String)
  /-- A reference met a placeholder that was never filled. -/
  | brokenLink (name referrer : String)
  /-- The base of a type is no object. -/
  | brokenBase (base target : String)
  /-- A type that extends another is no object. -/
  | brokenTarget (target : String)
  /-- Intersections have no normalized form. -/
  | intersection (text : String)
  /-- A kind of type that is not analysed. -/
  | unknownType (kind text : String)
  /-- A keyword without a normalized form. -/
  | unknownKeyword (word : String)
  /-- A union without any value. -/
  | nullishUnion (text : String)
  /-- No declaration has this name. -/
  | noModel (name : String)
  /-- Several declarations have this name. -/
  | manyModels (name : String)
  /-- A type extends something that is no named object. -/
  | cannotExtend (name : String) (base : ApiType)
  /-- A generic type has more arguments than parameters. -/
  | tooManyArguments (name : String) (expected found : Nat)
  /-- A parameter of a generic type has neither an argument nor a default. -/
  | missingArgument (parameter name : String)
  /-- The value of an enum member cannot be read off its text. -/
  | enumMember (name member text : String)
  /-- A method has several verbs. -/
  | manyVerbs (controller method : String) (found : List String)
  /-- A method without a verb was to be generated. -/
  | notRoutable
  /-- A decorator is repeated on a method. -/
  | repeatedOnMethod (label controller method : String)
  /-- A decorator is repeated on a class. -/
  | repeatedOnClass (label name : String)
  /-- A returned expression does not show its type. -/
  | noReturnType (text : String)
  /-- A method has several bodies. -/
  | manyBodies (controller method : String)
  /-- A method has a body and properties of a body. -/
  | bodyAndProperties (controller method : String)
  /-- A security decorator has no name. -/
  | securityName
  /-- The scopes of a security decorator are no list. -/
  | securityScopes (name found : String)
  /-- A parameter is a destructuring pattern. -/
  | destructured
  /-- The verb of the method takes no body. -/
  | bodyVerb (decorator name verb : String)
  /-- A query parameter is an array of a type that cannot travel. -/
  | arrayType (decorator name : String) (element : ApiType)
  /-- A parameter has a type that cannot travel. -/
  | wireType (decorator name : String) (type : ApiType)
  /-- A path parameter does not occur in the path. -/
  | pathMismatch (name path : String)
  /-- The cause was found in a method. -/
  | inMethod (cause : GenerateError) (controller method : String)
  /-- The cause was found on a class. -/
  | inClass (cause : GenerateError) (name : String)

namespace GenerateError

def message : GenerateError → String
  | notStatic text => "Unable to statically evaluate '" ++ text ++ "'"
  | notInteger value => "Default value " ++ value.compact ++ " is not an integer"
  | notListed value => "Default value " ++ value.compact ++ " is not one of the enum values"
  | wrongKind value type =>
    "Default value " ++ value.compact ++ " does not match type '" ++ type.tag ++ "'"
  | invalidDate text => "Invalid date '" ++ text ++ "'"
  | tagNumber tag found => "@" ++ tag ++ " requires a numeric value, found '" ++ found ++ "'"
  | tagValue tag => "@" ++ tag ++ " requires a value"
  | neverResolved name => "Referenced type '" ++ name ++ "' was never resolved"
  | brokenLink name referrer =>
    "Circular reference to '" ++ name ++ "' from '" ++ referrer ++ "' could not be resolved"
  | brokenBase base target =>
    "Base type '" ++ base ++ "' of '" ++ target ++ "' could not be resolved"
  | brokenTarget target => "Type '" ++ target ++ "' could not be resolved"
  | intersection text => "Intersection types are not supported: " ++ text
  | unknownType kind text => "Unknown type: " ++ kind ++ " ('" ++ text ++ "')"
  | unknownKeyword word => "Unknown type: " ++ word
  | nullishUnion text => "Unknown type: union of only null/undefined (" ++ text ++ ")"
  | noModel name => "No matching model found for referenced type " ++ name ++ "."
  | manyModels name =>
    "Multiple matching models found for referenced type " ++ name ++
      "; please make model names unique."
  | cannotExtend name base => "'" ++ name ++ "' cannot extend '" ++ base.tag ++ "' type"
  | tooManyArguments name expected found =>
    "Type '" ++ name ++ "' expects " ++ expected.repr ++ " type arguments, found " ++ found.repr
  | missingArgument parameter name =>
    "Missing type argument for '" ++ parameter ++ "' in '" ++ name ++ "'"
  | enumMember name member text =>
    "Enum member " ++ name ++ "." ++ member ++ " = " ++ text ++ " is not statically evaluable"
  | manyVerbs controller method found =>
    "Only one path decorator in '" ++ controller ++ "." ++ method ++ "' method, Found: " ++
      ", ".intercalate found
  | notRoutable => "This isn't a valid controller method."
  | repeatedOnMethod label controller method =>
    "Only one " ++ label ++ " decorator allowed in '" ++ controller ++ "." ++ method ++ "' method."
  | repeatedOnClass label name =>
    "Only one " ++ label ++ " decorator allowed in '" ++ name ++ "' class."
  | noReturnType text =>
    "Unable to infer the return type from '" ++ text ++ "'; add an explicit return type annotation"
  | manyBodies controller method =>
    "Only one body parameter allowed in '" ++ controller ++ "." ++ method ++ "' method."
  | bodyAndProperties controller method =>
    "Choose either during @Body or @BodyProp in '" ++ controller ++ "." ++ method ++ "' method."
  | securityName => "@Security requires a security scheme name"
  | securityScopes name found =>
    "@Security('" ++ name ++ "') scopes must be an array of strings, found '" ++ found ++ "'"
  | destructured =>
    "Destructured parameters are not supported; bind each value to a named parameter"
  | bodyVerb decorator name verb =>
    "@" ++ decorator ++ "('" ++ name ++ "') Can't support in " ++ verb ++ " method."
  | arrayType decorator name element =>
    "@" ++ decorator ++ "('" ++ name ++ "') Can't support array '" ++ element.tag ++ "' type."
  | wireType decorator name type =>
    "@" ++ decorator ++ "('" ++ name ++ "') Can't support '" ++ type.tag ++ "' type."
  | pathMismatch name path => "@Path('" ++ name ++ "') Can't match in URL: '" ++ path ++ "'."
  | inMethod cause controller method =>
    cause.message ++ " \n in '" ++ controller ++ "." ++ method ++ "'"
  | inClass cause name => cause.message ++ " \n in '" ++ name ++ "' class"

end GenerateError

/-- A result, or the cause why there is none. -/
abbrev Outcome (α : Type) := Except GenerateError α

end DecoratedApi
