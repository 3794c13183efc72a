import DecoratedApi.Declaration.Expr
import DecoratedApi.Doc.Comment

/-!
# Types as they are written

A type node is a type annotation of a source. A generic declaration is used by substituting type
nodes for its parameters; the fragments of its arguments make the name under which the result is
known.
-/

namespace DecoratedApi

/-- The types that have a word of their own. -/
inductive Keyword
  | string
  | number
  | boolean
  | bigint
  | any
  | unknown
  | void
  | object
  | never
  | symbol
  | null
  | undefined
deriving DecidableEq, Repr, Inhabited

namespace Keyword

def text : Keyword → String
  | string => "string"
  | number => "number"
  | boolean => "boolean"
  | bigint => "bigint"
  | any => "any"
  | unknown => "unknown"
  | void => "void"
  | object => "object"
  | never => "never"
  | symbol => "symbol"
  | null => "null"
  | undefined => "undefined"

def all : List Keyword :=
  [string, number, boolean, bigint, any, unknown, void, object, never, symbol, null, undefined]

def ofText? (word : String) : Option Keyword := all.find? (·.text == word)

end Keyword

/-- A literal used as a type. -/
inductive Literal
  | string (s : String)
  | number (n : Binary64)
  | bool (b : Bool)
deriving DecidableEq, Repr

/-- A declared property, with a type of some kind. -/
structure PropertyOf (τ : Type) where
  name : String
  doc : Option DocComment
  type : Option τ
  optional : Bool
  initializer : Option Expr

/-- A type annotation. -/
inductive TypeNode
  | keyword (k : Keyword)
  | reference (name : String) (arguments : List TypeNode)
  | array (element : TypeNode)
  | union (members : List TypeNode)
  | intersection (members : List TypeNode)
  | literal (l : Literal)
  | object (properties : List (PropertyOf TypeNode)) (index : Option TypeNode)
  | unsupported (kind text : String)
deriving Inhabited

/-- A declared property whose type is an annotation. -/
abbrev PropertyDecl := PropertyOf TypeNode

/-- What the parameters of a generic declaration stand for. A later binding of a name hides an
earlier one. -/
abbrev Bindings := List (String × TypeNode)

namespace Bindings

/-- What a name stands for. -/
def find? (b : Bindings) (name : String) : Option TypeNode :=
  match b with
  | [] => none
  | (n, t) :: rest => if n = name then some t else find? rest name

def bind (b : Bindings) (name : String) (t : TypeNode) : Bindings := (name, t) :: b

end Bindings

namespace TypeNode

/-- A name without arguments. -/
def named (name : String) : TypeNode := reference name []

/-! ## Substitution -/

mutual
/-- Replaces the names that are bound and have no arguments. What they stand for is not looked into
again. -/
def substitute (b : Bindings) : TypeNode → TypeNode
  | keyword k => keyword k
  | reference name arguments =>
    match arguments with
    | [] =>
      match b.find? name with
      | some t => t
      | none => reference name []
    | first :: rest => reference name (substitute b first :: substituteAll b rest)
  | array element => array (substitute b element)
  | union members => union (substituteAll b members)
  | intersection members => intersection (substituteAll b members)
  | literal l => literal l
  | object properties index => object (substituteProperties b properties) (substituteOption b index)
  | unsupported kind text => unsupported kind text

def substituteAll (b : Bindings) : List TypeNode → List TypeNode
  | [] => []
  | t :: rest => substitute b t :: substituteAll b rest

def substituteProperties (b : Bindings) : List (PropertyOf TypeNode) → List (PropertyOf TypeNode)
  | [] => []
  | ⟨name, doc, type, optional, initializer⟩ :: rest =>
    ⟨name, doc, substituteOption b type, optional, initializer⟩ :: substituteProperties b rest

def substituteOption (b : Bindings) : Option TypeNode → Option TypeNode
  | none => none
  | some t => some (substitute b t)
end

theorem substituteAll_eq_map (b : Bindings) (ts : List TypeNode) :
    substituteAll b ts = ts.map (substitute b) := by
  induction ts with
  | nil => rfl
  | cons t rest ih => simp [substituteAll, ih]

theorem substituteOption_eq_map (b : Bindings) (t : Option TypeNode) :
    substituteOption b t = t.map (substitute b) := by
  cases t <;> rfl

end TypeNode

def PropertyOf.substitute (b : Bindings) (p : PropertyDecl) : PropertyDecl :=
  { p with type := p.type.map (TypeNode.substitute b) }

namespace TypeNode

theorem substituteProperties_eq_map (b : Bindings) (ps : List PropertyDecl) :
    substituteProperties b ps = ps.map (PropertyOf.substitute b) := by
  induction ps with
  | nil => rfl
  | cons p rest ih =>
    simp [substituteProperties, PropertyOf.substitute, substituteOption_eq_map, ih]

/-! ## Texts of types -/

mutual
/-- The part that a type adds to the name of a generic type that it is an argument of. -/
def fragment : TypeNode → String
  | keyword k => k.text
  | reference name arguments => Text.lastSegment name ++ "".intercalate (fragments arguments)
  | array element => fragment element ++ "Array"
  | union members => "Or".intercalate (fragments members)
  | intersection members => "And".intercalate (fragments members)
  | literal (.string s) => s
  | literal (.number n) => n.render .plain
  | literal (.bool b) => if b then "true" else "false"
  | object _ _ => "object"
  | unsupported kind _ => kind

def fragments : List TypeNode → List String
  | [] => []
  | t :: rest => fragment t :: fragments rest
end

def isNullish : TypeNode → Bool
  | keyword .null => true
  | keyword .undefined => true
  | _ => false

end TypeNode
end DecoratedApi
