import DecoratedApi.Source.Language
import DecoratedApi.Source.Lexicon
import DecoratedApi.Source.Node

/-!
# Reading a source text

A text is parsed by the grammar of source texts. In the tree of nodes, a hidden phrase is replaced
by its parts; they take its role unless they have one of their own.
-/

namespace DecoratedApi.Source

open Grammar

/-- A table with the tokens and the search for them. -/
structure Dialect where
  tokens : Array Token
  table : Table
  lexicon : Lexicon

def Dialect.of (g : Grammar Token) : Dialect :=
  let numbers := Numbers.of g
  ⟨numbers.tokens, .of g, .of numbers⟩

/-- Source texts without markup. -/
def plainDialect : Thunk Dialect := Thunk.mk fun _ => .of (language false)

/-- Source texts with markup. -/
def markupDialect : Thunk Dialect := Thunk.mk fun _ => .of (language true)

namespace Dialect

/-- Whether a phrase shows as a node of its own. -/
def shows (d : Dialect) (symbol : Nat) : Bool :=
  d.table.visibility.getD (symbol - d.tokens.size) .hidden == .shown

/-- The kind of a symbol and whether it counts as a part; none when it does not show. -/
def label? (d : Dialect) (symbol : Nat) : Option (String × Bool) :=
  if symbol < d.tokens.size then
    let token := d.tokens.getD symbol .finish
    token.kind?.map (·, token.isNamed)
  else if d.shows symbol then some (d.table.phrases.getD (symbol - d.tokens.size) "", true)
  else none

/-- Gives nodes a role where they have none. -/
def inRole (field : Option String) (nodes : List Node) : List Node :=
  nodes.map fun n => { n with field := n.field.or field }

/-- The nodes that a symbol with the given children shows as. -/
def nodesOf (d : Dialect) (text : Array Char) (guise : Guise) (symbol start stop : Nat)
    (children : List Node) : List Node :=
  let node (kind : String) (named : Bool) : Node :=
    ⟨kind, named, guise.field, String.ofList (text.extract start stop).toList, children⟩
  match guise.kind, d.label? symbol with
  | some kind, _ => [node kind true]
  | none, some (kind, named) => [node kind named]
  | none, none => inRole guise.field children

mutual

/-- The nodes that a tree shows as. -/
def nodes (d : Dialect) (text : Array Char) (guise : Guise) : Tree → List Node
  | .leaf symbol start stop _ => d.nodesOf text guise symbol start stop []
  | .branch symbol guises children start stop _ =>
    d.nodesOf text guise symbol start stop (d.allNodes text guises children)

/-- The nodes that trees side by side show as. Extra tokens take no guise. -/
def allNodes (d : Dialect) (text : Array Char) (guises : List Guise) : List Tree → List Node
  | [] => []
  | t :: rest =>
    if t.isExtra then d.nodes text default t ++ d.allNodes text guises rest
    else d.nodes text (guises.headD default) t ++ d.allNodes text guises.tail rest

end

/-- The node of a whole text; none when the text does not follow the grammar. -/
def read? (d : Dialect) (text : List Char) : Option Node := do
  let tree ← d.table.parse d.lexicon.scan text
  (d.nodes text.toArray default tree).head?

end Dialect

def readNode? (markup : Bool) (text : String) : Option Node :=
  (if markup then markupDialect else plainDialect).get.read? text.toList

end DecoratedApi.Source
