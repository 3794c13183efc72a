import DecoratedApi.Declaration.TypeNode
import DecoratedApi.Source.ExprOf

/-!
# Types of nodes

The type that a node stands for. Unions inside unions are one union, and the same holds for
intersections. A type that is not modelled keeps its kind and its text.
-/

namespace DecoratedApi.Source

/-- A type of which only the kind and the text are kept. -/
def otherType (n : Node) : TypeNode := .unsupported n.kind n.text

def nameType (name : String) : TypeNode :=
  match name with
  | "undefined" => .keyword .undefined
  | "null" => .keyword .null
  | _ => .named name

/-- The type that a literal stands for; none when it is no literal. -/
def literalType? : Expr → Option TypeNode
  | .string s => some (.literal (.string s))
  | .number x => some (.literal (.number x))
  | .bool b => some (.literal (.bool b))
  | .null => some (.keyword .null)
  | .undefined => some (.keyword .undefined)
  | _ => none

/-- What the body of an object type declares: its properties, and the type that its index signature
gives to all others. -/
structure Members where
  properties : List PropertyDecl
  index : Option TypeNode

inductive Member
  | property (p : PropertyDecl)
  | index (type : Option TypeNode)
  | ignored

/-- All members together. The last index signature counts. -/
def Members.of (members : List Member) : Members where
  properties := members.filterMap fun
    | .property p => some p
    | _ => none
  index := members.foldl (fun found m =>
    match m with
    | .index type => type
    | _ => found) none

mutual

def typeOf (n : Node) : TypeNode :=
  match n.kind with
  | "type_annotation" | "parenthesized_type" | "readonly_type" | "default_type" =>
    match n.parts.head? with
    | some inner => typeOf inner.1
    | none => otherType n
  | "predefined_type" => ((Keyword.ofText? n.text).map TypeNode.keyword).getD (otherType n)
  | "type_identifier" | "nested_type_identifier" | "identifier" => nameType n.text
  | "generic_type" =>
    match n.role? "name" with
    | none => otherType n
    | some name =>
      match n.roleOrPart? "type_arguments" "type_arguments" with
      | none => .reference name.1.text []
      | some arguments => .reference name.1.text (arguments.1.parts.map fun a => typeOf a.1)
  | "array_type" =>
    match n.parts.head? with
    | some element => .array (typeOf element.1)
    | none => otherType n
  | "union_type" => .union (typesIn "union_type" n)
  | "intersection_type" => .intersection (typesIn "intersection_type" n)
  | "literal_type" => (n.parts.head?.bind fun l => literalType? (exprOf l.1)).getD (otherType n)
  | "object_type" =>
    let members := Members.of <| n.documentedParts.map fun (m, doc) => memberOf doc m.1
    .object members.properties members.index
  | _ => otherType n
termination_by (sizeOf n, 1)
decreasing_by all_goals grind [→ Node.sizeOf_lt_of_mem]

/-- The types in a node of a kind that lists types, those in nodes of the same kind inside it
included. -/
def typesIn (kind : String) (n : Node) : List TypeNode :=
  n.parts.flatMap fun c => if c.1.kind == kind then typesIn kind c.1 else [typeOf c.1]
termination_by (sizeOf n, 0)
decreasing_by all_goals grind [→ Node.sizeOf_lt_of_mem]

def memberOf (doc : Option DocComment) (n : Node) : Member :=
  match n.kind with
  | "property_signature" =>
    match n.role? "name" with
    | none => .ignored
    | some name => .property {
        name := stringContent name.1.text
        doc
        type := (n.roleOrPart? "type" "type_annotation").map fun t => typeOf t.1
        optional := n.has "?"
        initializer := none }
  | "index_signature" =>
    let annotations := n.namedChildren.filter (·.1.kind == "type_annotation")
    .index (annotations.getLast?.map fun t => typeOf t.1)
  | _ => .ignored
termination_by (sizeOf n, 0)
decreasing_by all_goals grind [→ Node.sizeOf_lt_of_mem]

end

def membersOf (body : Node) : Members :=
  .of (body.documentedParts.map fun (m, doc) => memberOf doc m.1)

def typeArgumentsOf (n : Node) : List TypeNode := n.parts.map fun a => typeOf a.1

/-- The types in the type arguments that a node may have. -/
def givenTypes (arguments : Option Node) : List TypeNode :=
  (arguments.map typeArgumentsOf).getD []

end DecoratedApi.Source
