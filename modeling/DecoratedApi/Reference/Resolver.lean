import DecoratedApi.Json.Reader
import DecoratedApi.Literal.Shape
import DecoratedApi.Reference.Generic
import DecoratedApi.Reference.Table
import DecoratedApi.Schema.Format
import DecoratedApi.Schema.Validation

/-!
# Resolving types

A type annotation is resolved to a normalized type, and the named types that it needs are put into
the table. A declaration may lead back to itself, so the recursion is bounded by a depth:
`resolve n` gives no answer when types are nested deeper than `n`, and one answer for all depths
that suffice.

`Resolver.step` says what one level does, given how the levels below it resolve.
-/

namespace DecoratedApi

/-- What a place asks for: the format hints, and whether named enums are put into the table or
written out in place. -/
structure ResolveContext where
  hints : FormatHints := {}
  extractEnum : Bool := true
deriving DecidableEq, Repr

/-- The table, the deferred work in order, and the names of the types that are being built, the
innermost first. -/
structure ResolverState where
  table : ReferenceTable := {}
  deferred : List Deferred := []
  building : List String := []

/-- A computation on the resolver's state. A failure keeps the state, and running out of depth gives
no answer at all. -/
abbrev Resolve (α : Type) := ExceptT GenerateError (StateT ResolverState Option) α

namespace Resolve

/-- The types are nested too deep. -/
def exhausted {α : Type} : Resolve α := ExceptT.mk fun _ => none

/-- An outcome that does not touch the state. -/
def ofOutcome {α : Type} (o : Outcome α) : Resolve α := ExceptT.mk (pure o)

/-- Runs a computation and hands its outcome on, so that work can be done after a failure. -/
def outcome {α : Type} (x : Resolve α) : Resolve (Outcome α) := ExceptT.lift x.run

def mapError {α : Type} (f : GenerateError → GenerateError) (x : Resolve α) : Resolve α := do
  match ← outcome x with
  | .ok a => pure a
  | .error e => throw (f e)

def runFrom {α : Type} (x : Resolve α) (s : ResolverState) :
    Option (Outcome α × ResolverState) := (ExceptT.run x).run s

end Resolve

namespace Resolver

/-- How a type annotation is resolved at some depth. -/
abbrev Recursor := TypeNode → ResolveContext → Resolve ApiType

def keywordType (k : Keyword) (ctx : ResolveContext) : Outcome ApiType :=
  match k with
  | .string => .ok .string
  | .number => .ok ctx.hints.numberType
  | .boolean => .ok .boolean
  | .bigint => .ok .long
  | .any | .unknown => .ok .any
  | .void => .ok .void
  | .object => .ok .object
  | .never | .symbol | .null | .undefined => .error (.unknownKeyword k.text)

/-- The type of a literal where enums are written out: that of its values. -/
def literalType : Literal → ApiType
  | .string _ => .string
  | .number _ => .double
  | .bool _ => .boolean

/-- The values of a list of literals; none when one is no literal. -/
def literalValues? : List TypeNode → Option (List Json)
  | [] => some []
  | .literal l :: rest => (literalValues? rest).map (l.value :: ·)
  | _ :: _ => none

/-- The values of an enum. A member without a value is one more than the number before it. -/
def enumValues (name : String) : List EnumMember → Binary64 → Outcome (List Json)
  | [], _ => .ok []
  | m :: rest, next =>
    match m.initializer with
    | none => do
      let values ← enumValues name rest (next.add .one)
      .ok (.ofBinary64 next :: values)
    | some (.number n) => do
      let values ← enumValues name rest (n.add .one)
      .ok (.ofBinary64 n :: values)
    | some (.string s) => do
      let values ← enumValues name rest next
      .ok (.string s :: values)
    | some e => .error (.enumMember name m.name e.describe)

/-- The default of a property: the JSON value in its `@default` tag, or that text itself; else the
value of its initializer, when it fits. -/
def propertyDefault (p : PropertyDecl) (type : ApiType) : Option Json :=
  match p.doc.bind (·.tagComment "default") with
  | some text => some ((Json.read? text).getD (.string text))
  | none =>
    match p.initializer with
    | none => none
    | some e =>
      match type.defaultOf e with
      | .ok value => value
      | .error _ => none

/-- The type annotation of a property: the written one, else the one that its initializer shows. -/
def propertyNode (p : PropertyDecl) : TypeNode :=
  match p.type with
  | some node => node
  | none =>
    match p.initializer with
    | some e => e.shape.toNode
    | none => .keyword .any

def descriptionOf (doc : Option DocComment) : Option String := doc.bind (·.description)

section Steps

variable (self : Recursor)

/-- A union without `null` and `undefined`: one member stands for itself, literals form an enum, and
any other union is an object. -/
def union (members : List TypeNode) (ctx : ResolveContext) : Resolve ApiType :=
  match members.filter (!·.isNullish) with
  | [] => throw (.nullishUnion (TypeNode.union members).describe)
  | [single] => self single ctx
  | several =>
    match literalValues? several with
    | some values => pure (.enum values)
    | none => pure .object

/-- A property of a definition. With `initializedIsOptional`, an initializer makes it optional. -/
def property (initializedIsOptional : Bool) (p : PropertyDecl) : Resolve Property := do
  let type ← self (propertyNode p) { hints := .ofDoc p.doc }
  let validators ← Resolve.ofOutcome (Validators.ofProperty p.doc)
  pure
    { name := p.name
      type
      required := !p.optional && !(p.initializer.isSome && initializedIsOptional)
      description := descriptionOf p.doc
      fallback := propertyDefault p type
      validators }

def properties (initializedIsOptional : Bool) : List PropertyDecl → Resolve (List Property)
  | [] => pure []
  | p :: rest => do
    let first ← property self initializedIsOptional p
    let others ← properties initializedIsOptional rest
    pure (first :: others)

def additional : Option TypeNode → Resolve (Option ApiType)
  | none => pure none
  | some node => do
    let type ← self node {}
    pure (some type)

/-- Takes over the properties of a base, or defers that when the base is not complete. -/
def inheritOne (d : ObjectDefinition) (base : TypeNode) : Resolve ObjectDefinition := do
  match ← self base {} with
  | .refObject name =>
    let s ← get
    if s.table.isComplete name then
      match s.table.object? name with
      | some b => pure (d.inherit b)
      | none => pure d
    else
      set { s with
        table := s.table.awaitBase d.name
        deferred := s.deferred ++ [Deferred.inherit d.name name] }
      pure d
  | other => throw (.cannotExtend d.name other)

/-- Takes over the properties of each base in turn. -/
def inheritAll : ObjectDefinition → List TypeNode → Resolve ObjectDefinition
  | d, [] => pure d
  | d, base :: rest => do
    let d ← inheritOne self d base
    inheritAll d rest

def buildInterface (decl : InterfaceDecl) (b : Bindings) (name : String) :
    Resolve ObjectDefinition := do
  let own ← properties self false (decl.properties.map (PropertyOf.substitute b))
  let additional ← additional self (decl.index.map (TypeNode.substitute b))
  inheritAll self
    { name, description := descriptionOf decl.doc, properties := own, additional }
    (decl.bases.map (TypeNode.substitute b))

def buildClass (decl : ClassDecl) (b : Bindings) (name : String) : Resolve ObjectDefinition := do
  let own ← properties self true (decl.properties.map (PropertyOf.substitute b))
  inheritAll self
    { name, description := descriptionOf decl.doc, properties := own, additional := none }
    (decl.base.toList.map (TypeNode.substitute b))

/-- The definition of an alias of an object type. -/
def buildAlias (decl : AliasDecl) (members : List PropertyDecl) (index : Option TypeNode)
    (name : String) : Resolve ObjectDefinition := do
  let own ← properties self false members
  let additional ← additional self index
  pure { name, description := descriptionOf decl.doc, properties := own, additional }

end Steps

/-- The type with this name. Its definition is built when there is no entry yet; a placeholder that
is met on the way is checked later. -/
def reference (name : String) (build : String → Resolve ObjectDefinition) : Resolve ApiType := do
  let s ← get
  if s.table.contains name then
    if s.table.isPending name then
      set { s with deferred := s.deferred ++ [Deferred.link name (s.building.head?.getD "")] }
    pure (.refObject name)
  else
    set { s with table := s.table.reserve name, building := name :: s.building }
    let built ← Resolve.outcome (build name)
    modify fun s => { s with building := s.building.tail }
    match built with
    | .ok d =>
      modify fun s => { s with table := s.table.fill (.object d) }
      pure (.refObject name)
    | .error e => throw e

def enumType (decl : EnumDecl) (ctx : ResolveContext) : Resolve ApiType := do
  let values ← Resolve.ofOutcome (enumValues decl.name decl.members .zero)
  if !ctx.extractEnum then pure (.enum values)
  else
    let s ← get
    if !s.table.contains decl.name then
      let d : EnumDefinition := ⟨decl.name, descriptionOf decl.doc, values⟩
      set { s with table := s.table.fill (.enum d) }
    pure (.refEnum decl.name)

/-- The types that need no declaration, by the last segment of their name. -/
inductive Builtin
  | known (type : ApiType)
  | list (element : TypeNode)
  | wrapper (inner : TypeNode)

def builtin? (name : String) (arguments : List TypeNode) (ctx : ResolveContext) :
    Option Builtin :=
  match Text.lastSegment name, arguments with
  | "String", [] => some (.known .string)
  | "Number", [] => some (.known ctx.hints.numberType)
  | "Boolean", [] => some (.known .boolean)
  | "Date", [] => some (.known ctx.hints.dateType)
  | "Buffer", [] => some (.known .buffer)
  | "Object", [] => some (.known .object)
  | "Array", [element] => some (.list element)
  | "ReadonlyArray", [element] => some (.list element)
  | "Promise", [inner] => some (.wrapper inner)
  | _, _ => none

/-- The one declaration of a name. -/
def declarationOf (p : Program) (name : String) : Outcome Declaration :=
  match p.find name with
  | [] => .error (.noModel name)
  | [d] => .ok d
  | _ => .error (.manyModels name)

/-- The type that a declaration gives for the arguments. -/
def declared (self : Recursor) (arguments : List TypeNode) (ctx : ResolveContext) :
    Declaration → Resolve ApiType
  | .ofEnum decl => enumType decl ctx
  | .ofAlias decl => do
    let i ← Resolve.ofOutcome (Instance.of decl.name decl.typeParameters arguments)
    match decl.value.substitute i.bindings with
    | .object members index => reference (i.key decl.name) (buildAlias self decl members index)
    | value => self value ctx
  | .ofInterface decl => do
    let i ← Resolve.ofOutcome (Instance.of decl.name decl.typeParameters arguments)
    reference (i.key decl.name) (buildInterface self decl i.bindings)
  | .ofClass decl => do
    let i ← Resolve.ofOutcome (Instance.of decl.name decl.typeParameters arguments)
    reference (i.key decl.name) (buildClass self decl i.bindings)

/-- The type of a name with arguments. -/
def named (p : Program) (self : Recursor) (name : String) (arguments : List TypeNode)
    (ctx : ResolveContext) : Resolve ApiType :=
  match builtin? name arguments ctx with
  | some (.known type) => pure type
  | some (.list element) => do
    let type ← self element ctx
    pure (.array type)
  | some (.wrapper inner) => self inner ctx
  | none => do
    let declaration ← Resolve.ofOutcome (declarationOf p name)
    declared self arguments ctx declaration

/-- One level of resolution. -/
def step (p : Program) (self : Recursor) (node : TypeNode) (ctx : ResolveContext) :
    Resolve ApiType :=
  match node with
  | .keyword k => Resolve.ofOutcome (keywordType k ctx)
  | .array element => do
    let type ← self element ctx
    pure (.array type)
  | .union members => union self members ctx
  | .intersection members => throw (.intersection (TypeNode.intersection members).describe)
  | .literal l => pure (if ctx.extractEnum then .enum [l.value] else literalType l)
  | .object _ _ => pure .object
  | .unsupported kind text => throw (.unknownType kind text)
  | .reference name arguments => named p self name arguments ctx

/-- Resolves a type annotation that is nested at most `depth` deep. -/
def resolve (p : Program) : (depth : Nat) → Recursor
  | 0, _, _ => Resolve.exhausted
  | depth + 1, node, ctx => step p (resolve p depth) node ctx

/-- Does the deferred work and gives the definitions, in order. -/
def finish (s : ResolverState) : Outcome (OrderedMap Definition) := do
  let table ← Deferred.runAll s.table s.deferred
  table.definitions

/-- A depth that no program reaches unless its types nest without end. -/
def ampleDepth : Nat := 10000

end Resolver
end DecoratedApi
