import DecoratedApi.Declaration.Decl
import DecoratedApi.Source.TypeOf

/-!
# Classes of nodes

The decorators, methods and properties of a class. Decorators stand before a method as members of
their own and belong to the next method; a field holds its decorators itself.
-/

namespace DecoratedApi.Source

/-! ## Decorators -/

def decoratorOf? (n : Node) : Option Decorator := do
  let expression ← n.parts.head?
  let e := expression.1
  if e.kind == "call_expression" then
    let function ← e.role? "function"
    return {
      name := Text.lastSegment function.1.text
      typeArguments := givenTypes ((e.roleOrPart? "type_arguments" "type_arguments").map (·.1))
      arguments := match e.role? "arguments" with
        | some arguments => arguments.1.parts.map fun a => exprOf a.1
        | none => [] }
  else return ⟨Text.lastSegment e.text, [], []⟩

def decoratorsOf (n : Node) : List Decorator :=
  (n.namedChildren.filter (·.1.kind == "decorator")).filterMap fun d => decoratorOf? d.1

/-! ## Parameters -/

def typeParametersOf (n : Node) : List TypeParameter :=
  match n.role? "type_parameters" with
  | none => []
  | some parameters =>
    (parameters.1.parts.filter (·.1.kind == "type_parameter")).filterMap fun p => do
      let name ← (p.1.role? "name").or p.1.parts.head?
      return ⟨name.1.text, (p.1.role? "value").map fun t => typeOf t.1⟩

/-- The kinds of what a parameter can be bound to. -/
def patternKinds : List String :=
  ["identifier", "object_pattern", "array_pattern", "rest_pattern", "this"]

/-- The parameter that a node stands for. The type of `this` is no parameter. -/
def parameterOf? (n : Node) : Option ParameterDecl := do
  let pattern ← (n.role? "pattern").or (n.parts.find? (patternKinds.contains ·.1.kind))
  guard (pattern.1.kind != "this")
  return {
    name := if pattern.1.kind == "identifier" then some pattern.1.text else none
    decorators := decoratorsOf n
    type := (n.roleOrPart? "type" "type_annotation").map fun t => typeOf t.1
    optional := n.kind == "optional_parameter"
    initializer := (n.role? "value").map fun v => exprOf v.1
    accessibility := (n.partOf? "accessibility_modifier").map (·.1.text)
    readonly := n.has "readonly" }

/-- The property that a parameter of a constructor declares, when it is public. -/
def parameterProperty? (p : ParameterDecl) : Option PropertyDecl :=
  let declares := match p.accessibility with
    | some access => access == "public"
    | none => p.readonly
  if declares then p.name.map fun name => ⟨name, none, p.type, p.optional, p.initializer⟩
  else none

/-! ## Methods -/

/-- The kinds of nodes whose `return` statements are their own. -/
def functionKinds : List String :=
  ["function_declaration", "function_expression", "function", "arrow_function",
    "generator_function_declaration", "generator_function", "method_definition",
    "class_declaration", "class"]

/-- The values that the `return` statements inside a node give; none for one without a value. -/
def returnsIn (n : Node) : List (Option Expr) :=
  n.parts.flatMap fun c =>
    if c.1.kind == "return_statement" then [c.1.parts.head?.map fun e => exprOf e.1]
    else if functionKinds.contains c.1.kind then []
    else returnsIn c.1
termination_by sizeOf n
decreasing_by all_goals grind [→ Node.sizeOf_lt_of_mem]

def parameterKinds : List String := ["required_parameter", "optional_parameter"]

def methodOf (name : String) (doc : Option DocComment) (decorators : List Decorator) (n : Node) :
    MethodDecl where
  name
  doc
  decorators
  parameters := match n.role? "parameters" with
    | some ps => (ps.1.parts.filter (parameterKinds.contains ·.1.kind)).filterMap
        fun p => parameterOf? p.1
    | none => []
  returnType := (n.role? "return_type").map fun t => typeOf t.1
  returns := ((n.role? "body").map fun b => returnsIn b.1).getD []

/-! ## Members -/

/-- The property that a field declares: only a public one with a plain name does. -/
def fieldOf? (doc : Option DocComment) (n : Node) : Option PropertyDecl := do
  guard !(n.has "static")
  guard ((n.partOf? "accessibility_modifier").all (·.1.text == "public"))
  let name ← n.role? "name"
  guard (name.1.kind == "property_identifier" || name.1.kind == "string")
  return {
    name := stringContent name.1.text
    doc
    type := (n.roleOrPart? "type" "type_annotation").map fun t => typeOf t.1
    optional := n.has "?"
    initializer := (n.role? "value").map fun v => exprOf v.1 }

/-- What a class declares in its body, and the decorators that wait for a method. -/
structure ClassBody where
  methods : List MethodDecl
  fields : List PropertyDecl
  declared : List PropertyDecl
  pending : List Decorator

namespace ClassBody

def empty : ClassBody := ⟨[], [], [], []⟩

def declaredBy (constructor : Node) : List PropertyDecl :=
  match constructor.role? "parameters" with
  | some ps => (ps.1.parts.filterMap fun p => parameterOf? p.1).filterMap parameterProperty?
  | none => []

/-- Adds a member with a body. Accessors and static members are not methods. -/
def addMethod (b : ClassBody) (doc : Option DocComment) (n : Node) : ClassBody :=
  let decorators := b.pending ++ decoratorsOf n
  let b := { b with pending := [] }
  match n.role? "name" with
  | none => b
  | some name =>
    if name.1.text == "constructor" then { b with declared := b.declared ++ declaredBy n }
    else if n.has "get" || n.has "set" || n.has "static" then b
    else { b with methods := b.methods ++ [methodOf name.1.text doc decorators n] }

def add (b : ClassBody) (doc : Option DocComment) (n : Node) : ClassBody :=
  match n.kind with
  | "decorator" => { b with pending := b.pending ++ (decoratorOf? n).toList }
  | "method_definition" => b.addMethod doc n
  | "public_field_definition" =>
    { b with pending := [], fields := b.fields ++ (fieldOf? doc n).toList }
  | "comment" => b
  | _ => { b with pending := [] }

/-- The members of a body in order. -/
def of (body : Node) : ClassBody :=
  (body.documented.filter (·.1.1.named)).foldl (fun b (m, doc) => b.add doc m.1) empty

end ClassBody

/-! ## Classes -/

def baseOf? (n : Node) : Option TypeNode := do
  let heritage ← n.partOf? "class_heritage"
  let clause ← heritage.1.partOf? "extends_clause"
  let value ← (clause.1.role? "value").or clause.1.parts.head?
  return .reference value.1.text (givenTypes ((clause.1.role? "type_arguments").map (·.1)))

def classOf (name : String) (doc : Option DocComment) (outer : List Decorator) (n : Node) :
    ClassDecl :=
  let body := match n.role? "body" with
    | some b => ClassBody.of b.1
    | none => .empty
  { name
    doc
    decorators := outer ++ decoratorsOf n
    typeParameters := typeParametersOf n
    base := baseOf? n
    methods := body.methods
    properties := body.fields ++ body.declared }

end DecoratedApi.Source
