import DecoratedApi.Files.Path
import DecoratedApi.Source.ClassOf
import DecoratedApi.Source.Reading

/-!
# Source units

What a source text declares and imports at its top level.
-/

namespace DecoratedApi.Source

/-! ## Declarations -/

def enumMembersOf (body : Node) : List EnumMember :=
  body.parts.filterMap fun m =>
    match m.1.kind with
    | "property_identifier" | "string" => some ⟨stringContent m.1.text, none⟩
    | "enum_assignment" => do
      let name ← (m.1.role? "name").or m.1.parts.head?
      let value ← (m.1.role? "value").or m.1.parts.getLast?
      return ⟨stringContent name.1.text, some (exprOf value.1)⟩
    | _ => none

def interfaceOf (name : String) (doc : Option DocComment) (n : Node) : InterfaceDecl :=
  let members := match n.role? "body" with
    | some b => membersOf b.1
    | none => ⟨[], none⟩
  { name
    doc
    typeParameters := typeParametersOf n
    bases := ((n.partOf? "extends_type_clause").map fun c => typeArgumentsOf c.1).getD []
    properties := members.properties
    index := members.index }

/-- The declaration that a node stands for, with the decorators and the documentation of the
statement around it; none when the node declares nothing that is modelled. -/
def declarationOf? (doc : Option DocComment) (outer : List Decorator) (n : Node) :
    Option Declaration := do
  let name ← n.role? "name"
  match n.kind with
  | "class_declaration" | "abstract_class_declaration" =>
    return .ofClass (classOf name.1.text doc outer n)
  | "interface_declaration" => return .ofInterface (interfaceOf name.1.text doc n)
  | "type_alias_declaration" =>
    return .ofAlias {
      name := name.1.text
      doc
      typeParameters := typeParametersOf n
      value := ((n.role? "value").map fun v => typeOf v.1).getD (.keyword .any) }
  | "enum_declaration" =>
    return .ofEnum ⟨name.1.text, doc, ((n.role? "body").map fun b => enumMembersOf b.1).getD []⟩
  | _ => none

/-- The declarations among the parts of a statement. -/
def declarationsIn (doc : Option DocComment) (outer : List Decorator) (n : Node) :
    List Declaration :=
  n.parts.filterMap fun c => declarationOf? doc outer c.1

def declarationsOf (doc : Option DocComment) (n : Node) : List Declaration :=
  match n.kind with
  | "export_statement" => declarationsIn doc (decoratorsOf n) n
  | "ambient_declaration" => declarationsIn doc [] n
  | _ => (declarationOf? doc [] n).toList

/-! ## Imports -/

/-- The relative module that a statement imports from or exports from. -/
def importOf? (n : Node) : Option String := do
  guard (n.kind == "import_statement" || n.kind == "export_statement")
  let source ← n.role? "source"
  let path := stringContent source.1.text
  guard (path.startsWith ".")
  return path

/-! ## Units -/

/-- The unit that a text is read as. The path decides whether markup is read. None when the text is
not well formed. -/
def readUnit? (path text : String) : Option SourceUnit := do
  let root ← readNode? (Files.isMarkup path) text
  return {
    path
    imports := root.parts.filterMap fun s => importOf? s.1
    declarations := root.documentedParts.flatMap fun (s, doc) => declarationsOf doc s.1 }

end DecoratedApi.Source
