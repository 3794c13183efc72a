import DecoratedApi.Doc.Comment

/-!
# Nodes of a source text

A source text is read as a tree of nodes. A node knows its kind, its role in the node around it and
its text. Named nodes are the parts of a phrase; the others are its words and signs.

Functions over nodes go down to children. `Node.Child` keeps the proof that a node is a child, so
that they end.
-/

namespace DecoratedApi.Source

/-- A node of a source text. -/
structure Node where
  kind : String
  named : Bool
  field : Option String
  text : String
  children : List Node

namespace Node

abbrev Child (n : Node) := { c : Node // c ∈ n.children }

theorem sizeOf_lt_of_mem {n c : Node} (h : c ∈ n.children) : sizeOf c < sizeOf n := by
  cases n with
  | mk kind named field text children =>
    have : sizeOf c < sizeOf children := List.sizeOf_lt_of_mem h
    simp only [Node.mk.sizeOf_spec]
    omega

/-! ## Selecting children -/

def namedChildren (n : Node) : List n.Child := n.children.attach.filter (·.1.named)

/-- The named children, comments apart. -/
def parts (n : Node) : List n.Child := n.namedChildren.filter (·.1.kind != "comment")

/-- The first child in a role. -/
def role? (n : Node) (field : String) : Option n.Child :=
  n.children.attach.find? (·.1.field == some field)

/-- The first named child of a kind. -/
def partOf? (n : Node) (kind : String) : Option n.Child :=
  n.namedChildren.find? (·.1.kind == kind)

/-- The first child in a role, or else the first named one of a kind. -/
def roleOrPart? (n : Node) (field kind : String) : Option n.Child :=
  (n.role? field).or (n.partOf? kind)

/-- Whether a word or a sign is among the children. -/
def has (n : Node) (token : String) : Bool :=
  n.children.any fun c => !c.named && c.kind == token

/-! ## Documentation -/

/-- The documentation that holds behind a node, when `doc` holds before it. A comment adds to it,
decorators and signs keep it, and any other node ends it. -/
def docBehind (doc : Option DocComment) (n : Node) : Option DocComment :=
  if !n.named || n.kind == "decorator" then doc
  else if n.kind == "comment" then (DocComment.read? n.text).or doc
  else none

/-- The documentation of each of some nodes that stand side by side. -/
def docsFrom (doc : Option DocComment) : List Node → List (Option DocComment)
  | [] => []
  | n :: rest => doc :: docsFrom (n.docBehind doc) rest

def documented (n : Node) : List (n.Child × Option DocComment) :=
  n.children.attach.zip (docsFrom none n.children)

def documentedParts (n : Node) : List (n.Child × Option DocComment) :=
  n.documented.filter fun (c, _) => c.1.named && c.1.kind != "comment"

end Node
end DecoratedApi.Source
