import DecoratedApi.Text.Words

/-!
# Documentation comments

A comment between `/**` and `*/` holds a description and then tags. A line that starts with `@`
opens a tag; the lines after it continue the tag's comment. Some tags of a method are aimed at one
of its parameters: the first word of their comment is the parameter's name.
-/

namespace DecoratedApi

/-- A tag, such as `@minimum 1`, with the text that follows its name. -/
structure DocTag where
  name : String
  comment : Option String
deriving DecidableEq, Repr

structure DocComment where
  description : Option String
  tags : List DocTag
deriving DecidableEq, Repr

namespace DocComment

/-! ## Reading -/

/-- A line of a comment, once its frame of blanks and its star are taken off. -/
inductive Line
  | text (cs : List Char)
  | tag (name : List Char) (comment : List Char)
deriving DecidableEq, Repr

def dropStar : List Char → List Char
  | '*' :: cs => cs
  | cs => cs

/-- What stands on a line: a star at its start belongs to the frame. -/
def readLine (cs : List Char) : Line :=
  match Text.trimBlank (dropStar (Text.trimBlank cs)) with
  | '@' :: rest =>
    .tag (rest.takeWhile (!Text.isBlank ·)) (Text.trimBlank (rest.dropWhile (!Text.isBlank ·)))
  | cs => .text cs

/-- An optional text: none when it is empty. -/
def nonEmpty? (cs : List Char) : Option String :=
  if cs.isEmpty then none else some (String.ofList cs)

def joinLines (sep : Char) : List (List Char) → List Char
  | [] => []
  | [cs] => cs
  | cs :: rest => cs ++ sep :: joinLines sep rest

/-- Cuts the lines into those before the first tag, and the tags. The lines after a tag continue
its comment, except the empty ones. -/
def gather : List Line → List (List Char) × List DocTag
  | [] => ([], [])
  | .text cs :: rest =>
    let (lines, tags) := gather rest
    (cs :: lines, tags)
  | .tag name comment :: rest =>
    let (lines, tags) := gather rest
    let all := (comment :: lines).filter (!·.isEmpty)
    ([], ⟨String.ofList name, nonEmpty? (joinLines ' ' all)⟩ :: tags)

/-- The comment whose lines stand between the two marks. -/
def ofLines (lines : List (List Char)) : DocComment :=
  let (description, tags) := gather (lines.map readLine)
  { description := nonEmpty? (Text.trimBlank (joinLines '\n' description)), tags }

/-- Reads a comment from its characters, marks included. Other comments are no documentation. -/
def ofChars? (cs : List Char) : Option DocComment := do
  let body ← Text.dropLead? ['/', '*', '*'] (Text.trimBlank cs)
  let body ← Text.dropTail? ['*', '/'] body
  some (ofLines (Text.linesOf body))

def read? (raw : String) : Option DocComment := ofChars? raw.toList

/-! ## Looking up -/

def hasTag (doc : DocComment) (name : String) : Bool := doc.tags.any (·.name == name)

def tagComment (doc : DocComment) (name : String) : Option String :=
  (doc.tags.find? (·.name == name)).bind (·.comment)

/-- The tag as it applies to a parameter: its comment has to start with the parameter's name, which
is taken off. -/
def aimedAt (parameter : String) (tag : DocTag) : Option DocTag := do
  let comment ← tag.comment
  let (first, rest) := Text.firstWord comment
  if first = parameter then some ⟨tag.name, if rest.isEmpty then none else some rest⟩ else none

def parameterTags (doc : DocComment) (parameter : String) : List DocTag :=
  doc.tags.filterMap (aimedAt parameter)

/-- Takes a type in braces off the start of a comment. It ends at the first closing brace. -/
def skipType (cs : List Char) : List Char :=
  let cs := Text.trimBlank cs
  match cs with
  | c :: _ =>
    if c = '\x7b' then
      match cs.dropWhile (· != '\x7d') with
      | _ :: rest => Text.trimBlank rest
      | [] => cs
    else cs
  | [] => cs

/-- What a `@param` comment says about a parameter: an optional type in braces, the name, perhaps in
square brackets, dashes, and the text. -/
def describes (parameter : String) (comment : String) : Option String :=
  let (name, rest) := Text.splitWord (skipType comment.toList)
  if String.ofList (Text.stripWhile (fun c => c == '[' || c == ']') name) = parameter then
    nonEmpty? (Text.trimBlank (rest.dropWhile (· == '-')))
  else none

/-- The description of a parameter, from the first `@param` tag that has one. -/
def paramDescription (doc : DocComment) (parameter : String) : Option String :=
  ((doc.tags.filter (·.name == "param")).filterMap (·.comment)).findSome? (describes parameter)

end DocComment
end DecoratedApi
