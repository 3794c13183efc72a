import DecoratedApi.Declaration.TypeNode

/-!
# Shapes of expressions

The type that an initializer or a returned value shows without being evaluated.
-/

namespace DecoratedApi

/-- A type that an expression can show. -/
inductive Shape
  | keyword (k : Keyword)
  | array (element : Shape)
  | named (name : String)
deriving DecidableEq, Repr

def Shape.toNode : Shape → TypeNode
  | keyword k => .keyword k
  | array element => .array element.toNode
  | named name => .named name

namespace Expr

/-- The shape of an expression. An array has the shape of its first item, and what shows no type is
`any`. -/
def shape : Expr → Shape
  | string _ => .keyword .string
  | number _ => .keyword .number
  | bool _ => .keyword .boolean
  | array [] => .array (.keyword .any)
  | array (first :: _) => .array first.shape
  | construct name _ => .named name
  | _ => .keyword .any

/-- The shape of a returned value. A bare `return` shows `undefined`, and what shows no type is
refused. -/
def returnShape? : Option Expr → Option Shape
  | none | some undefined => some (.keyword .undefined)
  | some (object _) => some (.keyword .object)
  | some (string s) => some (string s).shape
  | some (number n) => some (number n).shape
  | some (bool b) => some (bool b).shape
  | some (array items) => some (array items).shape
  | some (construct name arguments) => some (construct name arguments).shape
  | some null | some (identifier _) | some (other _ _) => none

end Expr
end DecoratedApi
