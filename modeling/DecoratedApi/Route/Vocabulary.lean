import DecoratedApi.Declaration.Decl

/-!
# The vocabulary of decorators

Which decorators describe an API. Verbs and parameter bindings are recognized in any case of their
letters, the others exactly as written.
-/

namespace DecoratedApi

/-- A method of the protocol. -/
inductive Verb
  | get
  | post
  | put
  | delete
  | options
  | head
  | patch
deriving DecidableEq, Repr

namespace Verb

def text : Verb → String
  | get => "get"
  | post => "post"
  | put => "put"
  | delete => "delete"
  | options => "options"
  | head => "head"
  | patch => "patch"

def all : List Verb := [get, post, put, delete, options, head, patch]

def ofText? (word : String) : Option Verb := all.find? (·.text == word)

/-- Whether a request may carry a body. -/
def acceptsBody : Verb → Bool
  | post | put | patch => true
  | get | delete | options | head => false

/-- The verbs that have a decorator. -/
def routable : List Verb := [get, post, put, patch, delete]

def ofDecorator? (name : String) : Option Verb := routable.find? (Text.sameLetters ·.text name)

end Verb

/-- Where a parameter is read from. -/
inductive Location
  | query
  | header
  | path
  | formData
  | body
  | bodyProperty
  | request
deriving DecidableEq, Repr

namespace Location

def text : Location → String
  | query => "query"
  | header => "header"
  | path => "path"
  | formData => "formData"
  | body => "body"
  | bodyProperty => "body-prop"
  | request => "request"

def all : List Location := [query, header, path, formData, body, bodyProperty, request]

def ofText? (word : String) : Option Location := all.find? (·.text == word)

end Location

/-- What a decorator binds a parameter to. -/
inductive Binding
  | request
  | body
  | bodyProperty
  | header
  | query
  | path
deriving DecidableEq, Repr

namespace Binding

/-- All bindings; an earlier one wins over a later one. -/
def priority : List Binding := [request, body, bodyProperty, header, query, path]

def decorator : Binding → String
  | request => "Request"
  | body => "Body"
  | bodyProperty => "BodyProp"
  | header => "Header"
  | query => "Query"
  | path => "Path"

def location : Binding → Location
  | request => .request
  | body => .body
  | bodyProperty => .bodyProperty
  | header => .header
  | query => .query
  | path => .path

def ofDecorator? (name : String) : Option Binding :=
  priority.find? (Text.sameLetters ·.decorator name)

/-- The binding that wins among the decorators, and the first decorator that asks for it. -/
def select (decorators : List Decorator) : Option (Binding × Decorator) :=
  priority.findSome? fun b =>
    (decorators.find? (ofDecorator? ·.name == some b)).map (b, ·)

end Binding

inductive DecoratorKind
  | route
  | verb (v : Verb)
  | binding (b : Binding)
  | response
  | successResponse
  | sample
  | tags
  | security
  | hidden
deriving DecidableEq, Repr

namespace DecoratorKind

def ofName? (name : String) : Option DecoratorKind :=
  match name with
  | "Route" => some .route
  | "Response" => some .response
  | "SuccessResponse" => some .successResponse
  | "Example" => some .sample
  | "Tags" => some .tags
  | "Security" => some .security
  | "Hidden" => some .hidden
  | _ =>
    match Verb.ofDecorator? name with
    | some v => some (.verb v)
    | none => (Binding.ofDecorator? name).map .binding

def verb? : DecoratorKind → Option Verb
  | verb v => some v
  | _ => none

end DecoratorKind

namespace Decorator

def kind? (d : Decorator) : Option DecoratorKind := DecoratorKind.ofName? d.name

def ofKind (kind : DecoratorKind) (ds : List Decorator) : List Decorator :=
  ds.filter (·.kind? == some kind)

/-- The verbs among the decorators, each with the decorator that gave it. -/
def verbs (ds : List Decorator) : List (Verb × Decorator) :=
  ds.filterMap fun d => (d.kind?.bind (·.verb?)).map (·, d)

end Decorator
end DecoratedApi
