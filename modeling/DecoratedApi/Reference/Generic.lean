import DecoratedApi.Declaration.Decl
import DecoratedApi.Literal.Value

/-!
# Generic declarations and texts of types

The arguments of a generic type are bound to the parameters of its declaration, and their fragments
give the instance a name of its own.
-/

namespace DecoratedApi

/-- The bindings of a generic type, and its arguments with the missing ones filled in. -/
structure Instance where
  bindings : Bindings
  arguments : List TypeNode

namespace Instance

/-- Binds the parameters to the arguments, in order. A parameter without an argument takes its
default as it is written. -/
def bindAll (name : String) : List TypeParameter → List TypeNode → Instance → Outcome Instance
  | [], _, acc => .ok acc
  | p :: ps, arguments, acc =>
    match arguments.head? <|> p.fallback with
    | none => .error (.missingArgument p.name name)
    | some t =>
      bindAll name ps arguments.tail
        { bindings := acc.bindings.bind p.name t, arguments := acc.arguments ++ [t] }

/-- The instance of a declaration for the given arguments. -/
def of (name : String) (parameters : List TypeParameter) (arguments : List TypeNode) :
    Outcome Instance :=
  if parameters.length < arguments.length then
    .error (.tooManyArguments name parameters.length arguments.length)
  else bindAll name parameters arguments ⟨[], []⟩

/-- The name under which an instance of a declaration is known. -/
def key (i : Instance) (name : String) : String :=
  Text.lastSegment name ++ "".intercalate (TypeNode.fragments i.arguments)

end Instance

namespace TypeNode

mutual
/-- The type as messages show it. -/
def describe : TypeNode → String
  | unsupported _ text => text
  | union members => " | ".intercalate (describeAll members)
  | intersection members => " & ".intercalate (describeAll members)
  | keyword k => k.text
  | reference name [] => name
  | reference name (first :: rest) =>
    name ++ "<" ++ ", ".intercalate (describe first :: describeAll rest) ++ ">"
  | array element => describe element ++ "[]"
  | literal (.string s) => "'" ++ s ++ "'"
  | literal l => l.value.compact
  | object _ _ => "\x7b...\x7d"

def describeAll : List TypeNode → List String
  | [] => []
  | t :: rest => describe t :: describeAll rest
end

end TypeNode
end DecoratedApi
