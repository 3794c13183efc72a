import DecoratedApi.Json.Value

/-!
# Fields of documents

Documents are JSON objects with fixed fields. Optional fields are left out when they are absent, and
read as absent when they are missing or `null`.
-/

namespace DecoratedApi

/-- The fields of an object that is being written. -/
abbrev Fields := List (String × Json)

namespace Fields

/-- A field that is always there. -/
def one (key : String) (value : Json) : Fields := [(key, value)]

/-- A field that is there when its value is. -/
def optional {α : Type} (encode : α → Json) (key : String) : Option α → Fields
  | some a => [(key, encode a)]
  | none => []

/-- A list that is written only when it is not empty. -/
def unlessEmpty {α : Type} (encode : α → Json) (key : String) (items : List α) : Fields :=
  if items.isEmpty then [] else [(key, .array (items.map encode))]

end Fields

namespace Json

def field? (key : String) : Json → Option Json
  | object members => OrderedMap.find? key members
  | _ => none

/-- The value of a field that may be missing or `null`: none is a value of the wrong form. -/
def optionalField? {α : Type} (decode : Json → Option α) (key : String) (v : Json) :
    Option (Option α) :=
  match v.field? key with
  | none => some none
  | some .null => some none
  | some x => (decode x).map some

def requiredField? {α : Type} (decode : Json → Option α) (key : String) (v : Json) : Option α :=
  (v.field? key).bind decode

/-- A value of any form. -/
def any? (v : Json) : Option Json := some v

def bool? : Json → Option Bool
  | bool b => some b
  | _ => none

/-- A list of values of one form. -/
def list? {α : Type} (decode : Json → Option α) : Json → Option (List α)
  | array items => items.mapM decode
  | _ => none

/-- The members of an object whose values have one form. -/
def members? {α : Type} (decode : Json → Option α) : Json → Option (List (String × α))
  | object members => members.mapM fun (k, v) => (decode v).map (k, ·)
  | _ => none

def ofStrings (ss : List String) : Json := array (ss.map string)

end Json
end DecoratedApi
