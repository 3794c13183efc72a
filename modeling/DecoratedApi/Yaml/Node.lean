import DecoratedApi.Yaml.Tokens

/-!
# Documents

A document is a text, a list or a mapping. A node may have a label, and stand again where the label
is used; a label may be given again. A node may have a tag, which says how its text is meant.
-/

namespace DecoratedApi.Yaml

/-- A text in a document. A plain one may be meant for something else than its characters. -/
structure Scalar where
  text : String
  plain : Bool
  tag : Option String
deriving DecidableEq, Repr

/-- Where nothing is written. -/
def Scalar.absent : Scalar := ⟨"", true, none⟩

/-- A node of a document. Where a label is used, only its number is kept. -/
inductive Node
  | scalar (s : Scalar)
  | use (number : Nat)
  | list (items : List Node)
  | mapping (entries : List (Node × Node))

/-- What is known of a document while it is read: the tokens to come, what the handles of tags stand
for, the numbers of the labels so far, and the text that a number stands for, if it is one. The last
entry for a number counts. -/
structure Reading where
  tokens : List Token
  handles : List (String × String)
  labels : List (String × Nat)
  texts : List (Nat × Option Scalar)

/-- Reads something from the tokens, or fails. -/
abbrev NodeReader := StateT Reading Option

/-- The next token. The reader stays where it is. -/
def upcoming : NodeReader (Option Token) := return (← get).tokens.head?

def pass : NodeReader Unit := modify fun r => { r with tokens := r.tokens.drop 1 }

/-- Passes a token if it comes next, and says whether it did. -/
def token? (t : Token) : NodeReader Bool := do
  if (← upcoming) == some t then
    pass
    return true
  else return false

/-- Whether one of some tokens comes next, or none at all. -/
def comesOneOf (ts : List Token) : NodeReader Bool := do
  match ← upcoming with
  | some t => return ts.contains t
  | none => return false

/-! ## Labels and tags -/

/-- What stands before a node. -/
structure Marks where
  label : Option String
  tag : Option (String × String)

/-- Passes a label, if one comes next. -/
def label? : NodeReader (Option String) := do
  match ← upcoming with
  | some (.label name) =>
    pass
    return some name
  | _ => return none

/-- Passes a tag, if one comes next. -/
def tag? : NodeReader (Option (String × String)) := do
  match ← upcoming with
  | some (.tag handle ending) =>
    pass
    return some (handle, ending)
  | _ => return none

/-- Passes a label and a tag, in either order. -/
def marks : NodeReader Marks := do
  match ← label? with
  | some name => return ⟨some name, ← tag?⟩
  | none =>
    let tag ← tag?
    let label ← if tag.isSome then label? else pure none
    return ⟨label, tag⟩

/-- What a tag stands for. None where its handle stands for nothing. -/
def meaning (tag : Option (String × String)) : NodeReader (Option String) := do
  match tag with
  | none => return none
  | some (handle, ending) =>
    if handle.isEmpty then return some ending
    else
      let start ← (← get).handles.lookup handle
      return some (start ++ ending)

/-- Gives a label to a node, which may be a text. A new label takes the number of labels so far. -/
def giveLabel (label : Option String) (text : Option Scalar) : NodeReader Unit :=
  match label with
  | none => return
  | some name => modify fun r =>
    let number := r.labels.length
    { r with
      labels := (name, number) :: r.labels.filter (·.1 != name)
      texts := (number, text) :: r.texts }

/-! ## Nodes -/

/-- The node where only a label or a tag is written. -/
def emptyNode (marks : Marks) (tag : Option String) : NodeReader Node := do
  guard (marks.label.isSome || marks.tag.isSome)
  let s : Scalar := { Scalar.absent with tag }
  giveLabel marks.label (some s)
  return .scalar s

mutual

/-- Reads a node. In lines a list or a mapping may be one; items may stand in the column of the key
they belong to where `outdented` allows it. -/
def node (lines outdented : Bool) : (fuel : Nat) → NodeReader Node
  | 0 => failure
  | fuel + 1 => do
    if let some (.use name) ← upcoming then
      pass
      return .use (← (← get).labels.lookup name)
    let marks ← marks
    let tag ← meaning marks.tag
    match ← upcoming with
    | some .dash =>
      if outdented then
        giveLabel marks.label none
        return .list (← outdentedItems fuel)
      else emptyNode marks tag
    | some (.text text plain) =>
      pass
      let s : Scalar := ⟨text, plain, tag⟩
      giveLabel marks.label (some s)
      return .scalar s
    | some .openBracket =>
      pass
      giveLabel marks.label none
      return .list (← bracketItems true fuel)
    | some .openBrace =>
      pass
      giveLabel marks.label none
      return .mapping (← braceEntries true fuel)
    | some .listStart =>
      if lines then
        pass
        giveLabel marks.label none
        return .list (← lineItems fuel)
      else emptyNode marks tag
    | some .mappingStart =>
      if lines then
        pass
        giveLabel marks.label none
        return .mapping (← lineEntries fuel)
      else emptyNode marks tag
    | _ => emptyNode marks tag

def lineItems : (fuel : Nat) → NodeReader (List Node)
  | 0 => failure
  | fuel + 1 => do
    if ← token? .blockEnd then return []
    guard (← token? .dash)
    let item ← if ← comesOneOf [.dash, .blockEnd] then pure (.scalar .absent)
      else node true false fuel
    return item :: (← lineItems fuel)

/-- Reads the items of a list in the column of the key that it belongs to. -/
def outdentedItems : (fuel : Nat) → NodeReader (List Node)
  | 0 => failure
  | fuel + 1 => do
    if ← token? .dash then
      let item ← if ← comesOneOf [.dash, .key, .value, .blockEnd] then pure (.scalar .absent)
        else node true false fuel
      return item :: (← outdentedItems fuel)
    else return []

def lineEntries : (fuel : Nat) → NodeReader (List (Node × Node))
  | 0 => failure
  | fuel + 1 => do
    if ← token? .blockEnd then return []
    guard (← token? .key)
    let key ← linePart fuel
    let value ← if ← token? .value then linePart fuel else pure (.scalar .absent)
    return (key, value) :: (← lineEntries fuel)

/-- Reads a key or a value of a mapping in lines, which may be absent. -/
def linePart : (fuel : Nat) → NodeReader Node
  | 0 => failure
  | fuel + 1 => do
    if ← comesOneOf [.key, .value, .blockEnd] then return .scalar .absent
    else node true true fuel

/-- Reads the items of a list between brackets, with commas between them. An item may be a mapping
of one entry. -/
def bracketItems (first : Bool) : (fuel : Nat) → NodeReader (List Node)
  | 0 => failure
  | fuel + 1 => do
    if ← token? .closeBracket then return []
    guard (← if first then pure true else token? .comma)
    if ← token? .key then
      let key ← if ← comesOneOf [.value, .comma, .closeBracket] then do
          pass
          pure (.scalar .absent)
        else node false false fuel
      let value ← valueUpTo .closeBracket fuel
      return .mapping [(key, value)] :: (← bracketItems false fuel)
    else if ← token? .closeBracket then return []
    else
      let item ← node false false fuel
      return item :: (← bracketItems false fuel)

/-- Reads the entries of a mapping between braces, with commas between them. -/
def braceEntries (first : Bool) : (fuel : Nat) → NodeReader (List (Node × Node))
  | 0 => failure
  | fuel + 1 => do
    if ← token? .closeBrace then return []
    guard (← if first then pure true else token? .comma)
    if ← token? .key then
      let key ← if ← comesOneOf [.value, .comma, .closeBrace] then pure (.scalar .absent)
        else node false false fuel
      let value ← valueUpTo .closeBrace fuel
      return (key, value) :: (← braceEntries false fuel)
    else if ← token? .closeBrace then return []
    else
      let key ← node false false fuel
      return (key, .scalar .absent) :: (← braceEntries false fuel)

/-- Reads a value between brackets, which may be absent. -/
def valueUpTo (close : Token) : (fuel : Nat) → NodeReader Node
  | 0 => failure
  | fuel + 1 => do
    if ← token? .value then
      if ← comesOneOf [.comma, close] then return .scalar .absent else node false false fuel
    else return .scalar .absent

end

/-! ## Documents -/

/-- A document, and the texts that the numbers of labels stand for. -/
structure Document where
  root : Node
  texts : List (Nat × Option Scalar)

/-- The text that a node is, or that the label stands for which it uses. -/
def Document.scalar? (d : Document) : Node → Option Scalar
  | .scalar s => some s
  | .use number => (d.texts.lookup number).join
  | _ => none

/-- Passes the directives before a document, and says whether there are any. Only one version may be
given, and no handle twice. -/
def directives (version : Bool) : (fuel : Nat) → NodeReader Bool
  | 0 => failure
  | fuel + 1 => do
    match ← upcoming with
    | some (.version major minor) =>
      guard (!version && major == 1 && (minor == 1 || minor == 2))
      pass
      let _ ← directives true fuel
      return true
    | some (.handle handle meaning) =>
      guard (((← get).handles.lookup handle).isNone)
      modify fun r => { r with handles := (handle, meaning) :: r.handles }
      pass
      let _ ← directives version fuel
      return true
    | _ => return version

/-- The handles that need no directive. -/
def standardHandles : List (String × String) := [("!", "!"), ("!!", "tag:yaml.org,2002:")]

def passEnds (r : Reading) : Reading :=
  { r with tokens := r.tokens.dropWhile (· == .documentEnd) }

/-- Whether a directive or a mark between documents comes next, or the end. -/
def atDocumentEnd : NodeReader Bool := do
  match ← upcoming with
  | none => return true
  | some (.version _ _) => return true
  | some (.handle _ _) => return true
  | some t => return t == .documentStart || t == .documentEnd

/-- Reads the only document of some tokens. One without a mark at its start has no directives and is
not empty. -/
def onlyNode (fuel : Nat) : NodeReader Node := do
  let directed ← directives false fuel
  modify fun r => { r with handles := r.handles ++ standardHandles }
  let marked ← token? .documentStart
  guard (marked || !directed)
  let root ← if ← (pure marked <&&> atDocumentEnd) then pure (.scalar .absent)
    else node true false fuel
  modify passEnds
  guard (← get).tokens.isEmpty
  return root

/-- The only document of a text. A text without one stands for a document in which nothing is
written. None when the text is malformed or holds more than one document. -/
def Document.read? (text : String) : Option Document := do
  match ← tokensOf? text with
  | [] => return ⟨.scalar .absent, []⟩
  | tokens =>
    let (root, r) ← (onlyNode (2 * tokens.length + 4)).run ⟨tokens, [], [], []⟩
    return ⟨root, r.texts⟩

end DecoratedApi.Yaml
