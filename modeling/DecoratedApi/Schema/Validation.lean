import DecoratedApi.Doc.Comment
import DecoratedApi.Error
import DecoratedApi.Schema.Definition

/-!
# Validators from documentation tags

Some tags set validator keywords: flags, numbers and texts, each with an optional message. Tags on a
property apply to it; tags on a method apply to the parameter that they name.
-/

namespace DecoratedApi.Validators

/-- What a tag needs after its name. -/
inductive Form
  | flag
  | number
  | text
deriving DecidableEq, Repr

/-- The tags that set a keyword. -/
def forms : List (String × Form) :=
  [("isString", .flag), ("isBoolean", .flag), ("isInt", .flag), ("isLong", .flag),
    ("isFloat", .flag), ("isDouble", .flag), ("isDate", .flag), ("isDateTime", .flag),
    ("isArray", .flag), ("uniqueItems", .flag), ("minimum", .number), ("maximum", .number),
    ("minLength", .number), ("maxLength", .number), ("minItems", .number), ("maxItems", .number),
    ("pattern", .text), ("minDate", .text), ("maxDate", .text)]

/-- The keyword that a tag sets, if it sets one. -/
def ofTag? (tag : DocTag) : Outcome (Option Validator) :=
  let comment := tag.comment.getD ""
  let (first, rest) := Text.firstWord comment
  match OrderedMap.find? tag.name forms with
  | none => .ok none
  | some .flag => .ok (some ⟨none, Text.nonBlank? comment⟩)
  | some .number =>
    match Binary64.read? first with
    | some n => .ok (some ⟨some (.ofBinary64 n), Text.nonBlank? rest⟩)
    | none => .error (.tagNumber tag.name first)
  | some .text =>
    if first.isEmpty then .error (.tagValue tag.name)
    else .ok (some ⟨some (.string first), Text.nonBlank? rest⟩)

/-- Adds the keywords that the tags set. A repeated keyword keeps its place and takes the last
setting. -/
def addTags : Validators → List DocTag → Outcome Validators
  | validators, [] => .ok validators
  | validators, tag :: rest => do
    match ← ofTag? tag with
    | some v => addTags (OrderedMap.set tag.name v validators) rest
    | none => addTags validators rest

/-- The keywords that a list of tags sets. -/
def ofTags (tags : List DocTag) : Outcome Validators := addTags [] tags

def ofProperty (doc : Option DocComment) : Outcome Validators :=
  ofTags ((doc.map (·.tags)).getD [])

/-- The validators of a parameter, from the comment of its method. -/
def ofParameter (doc : Option DocComment) (parameter : String) : Outcome Validators :=
  ofTags ((doc.map (·.parameterTags parameter)).getD [])

end DecoratedApi.Validators
