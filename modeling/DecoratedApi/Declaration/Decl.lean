import DecoratedApi.Declaration.TypeNode
import DecoratedApi.OrderedMap

/-!
# Declarations

What a source unit declares at its top level: classes, interfaces, aliases and enums, with the
decorators that describe an API.
-/

namespace DecoratedApi

structure TypeParameter where
  name : String
  fallback : Option TypeNode

/-- A decorator, such as `@Get('users')`. Its name is the last segment of what is written. -/
structure Decorator where
  name : String
  typeArguments : List TypeNode
  arguments : List Expr

namespace Decorator

def argument? (d : Decorator) (index : Nat) : Option Expr := d.arguments[index]?

/-- The text of a string or number argument. -/
def textArgument (d : Decorator) (index : Nat) : Option String :=
  (d.argument? index).bind Expr.literalText

end Decorator

/-- A parameter of a method. A destructuring pattern has no name. -/
structure ParameterDecl where
  name : Option String
  decorators : List Decorator
  type : Option TypeNode
  optional : Bool
  initializer : Option Expr
  accessibility : Option String
  readonly : Bool

/-- A method with a body. `returns` holds the value of each `return`; none for a bare one. -/
structure MethodDecl where
  name : String
  doc : Option DocComment
  decorators : List Decorator
  parameters : List ParameterDecl
  returnType : Option TypeNode
  returns : List (Option Expr)

/-- A class. Its properties are its public fields and then the public properties that its
constructor declares. -/
structure ClassDecl where
  name : String
  doc : Option DocComment
  decorators : List Decorator
  typeParameters : List TypeParameter
  base : Option TypeNode
  methods : List MethodDecl
  properties : List PropertyDecl

structure InterfaceDecl where
  name : String
  doc : Option DocComment
  typeParameters : List TypeParameter
  bases : List TypeNode
  properties : List PropertyDecl
  index : Option TypeNode

structure AliasDecl where
  name : String
  doc : Option DocComment
  typeParameters : List TypeParameter
  value : TypeNode

structure EnumMember where
  name : String
  initializer : Option Expr

structure EnumDecl where
  name : String
  doc : Option DocComment
  members : List EnumMember

/-- A declaration at the top level of a unit. -/
inductive Declaration
  | ofClass (c : ClassDecl)
  | ofInterface (i : InterfaceDecl)
  | ofAlias (a : AliasDecl)
  | ofEnum (e : EnumDecl)

namespace Declaration

def name : Declaration → String
  | ofClass c => c.name
  | ofInterface i => i.name
  | ofAlias a => a.name
  | ofEnum e => e.name

def class? : Declaration → Option ClassDecl
  | ofClass c => some c
  | _ => none

end Declaration

/-- A source file: its path, the relative modules that it imports, and what it declares. -/
structure SourceUnit where
  path : String
  imports : List String
  declarations : List Declaration

/-- The units that are analysed together. -/
structure Program where
  units : List SourceUnit

namespace Program

def declarations (p : Program) : List Declaration := p.units.flatMap (·.declarations)

/-- Where a declaration stands: the number of its unit, and its own number in the unit. -/
structure Place where
  unit : Nat
  declaration : Nat
deriving DecidableEq, Repr

/-- The declared names with the places of their declarations, in order. -/
def places (p : Program) : List (String × Place) :=
  p.units.zipIdx.flatMap fun (u, i) => u.declarations.zipIdx.map fun (d, j) => (d.name, ⟨i, j⟩)

/-- Puts one more place under a name. -/
def addPlace (index : OrderedMap (List Place)) (entry : String × Place) :
    OrderedMap (List Place) :=
  OrderedMap.set entry.1 ((OrderedMap.find? entry.1 index).getD [] ++ [entry.2]) index

/-- The places of the declarations under each name. -/
def index (p : Program) : OrderedMap (List Place) := p.places.foldl addPlace []

def declarationAt? (p : Program) (place : Place) : Option (SourceUnit × Declaration) := do
  let u ← p.units[place.unit]?
  let d ← u.declarations[place.declaration]?
  pure (u, d)

/-- The declarations of a name, each with its unit. Of a qualified name, the last segment counts. -/
def locate (p : Program) (name : String) : List (SourceUnit × Declaration) :=
  ((OrderedMap.find? (Text.lastSegment name) p.index).getD []).filterMap p.declarationAt?

/-- The declarations of a name. -/
def find (p : Program) (name : String) : List Declaration := (p.locate name).map (·.2)

end Program
end DecoratedApi
