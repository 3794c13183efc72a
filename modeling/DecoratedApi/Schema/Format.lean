import DecoratedApi.Doc.Comment
import DecoratedApi.Schema.ApiType

/-!
# Format hints

Tags such as `@isInt` and `@isDate` say which number or date type is meant where the source says
only `number` or `Date`.
-/

namespace DecoratedApi

/-- The number types that a tag can ask for. -/
inductive NumberFormat
  | int
  | long
  | float
  | double
deriving DecidableEq, Repr

/-- The date types that a tag can ask for. -/
inductive DateFormat
  | date
  | datetime
deriving DecidableEq, Repr

/-- What the tags at a place ask for. -/
structure FormatHints where
  number : Option NumberFormat := none
  date : Option DateFormat := none
deriving DecidableEq, Repr

namespace FormatHints

/-- One more tag. -/
def apply (hints : FormatHints) (tag : DocTag) : FormatHints :=
  match tag.name with
  | "isInt" => { hints with number := some .int }
  | "isLong" => { hints with number := some .long }
  | "isFloat" => { hints with number := some .float }
  | "isDouble" => { hints with number := some .double }
  | "isDate" => { hints with date := some .date }
  | "isDateTime" => { hints with date := some .datetime }
  | _ => hints

/-- The hints of a list of tags; the last of each kind counts. -/
def ofTags (tags : List DocTag) : FormatHints := tags.foldl apply {}

def ofDoc (doc : Option DocComment) : FormatHints := ofTags ((doc.map (·.tags)).getD [])

def numberType (hints : FormatHints) : ApiType :=
  match hints.number with
  | some .int => .integer
  | some .long => .long
  | some .float => .float
  | some .double | none => .double

def dateType (hints : FormatHints) : ApiType :=
  match hints.date with
  | some .date => .date
  | some .datetime | none => .datetime

end FormatHints
end DecoratedApi
