import DecoratedApi.Number.Decimal

/-!
# Expressions

The expressions whose value can be read off their text. Any other expression keeps its kind and its
source text, so that messages can name it.
-/

namespace DecoratedApi

inductive Expr
  | string (s : String)
  | number (n : Binary64)
  | bool (b : Bool)
  | null
  | undefined
  | array (items : List Expr)
  | object (entries : List (String × Expr))
  | construct (name : String) (arguments : List Expr)
  | identifier (name : String)
  | other (kind text : String)
deriving Inhabited, Repr

/-- A number as it is written in a path or a status: a whole number below `10 ^ 15` has no sign on
zero and no exponent. -/
def Binary64.shortText (x : Binary64) : String :=
  if x.isWhole ∧ x.truncate.natAbs < Nat.pow 10 15 then
    let n := x.truncate
    if n < 0 then "-" ++ n.natAbs.repr else n.natAbs.repr
  else x.render .plain

namespace Expr

def literalText : Expr → Option String
  | string s => some s
  | number n => some n.shortText
  | _ => none

/-- The expression as messages show it. -/
def describe : Expr → String
  | string s => "'" ++ s ++ "'"
  | number n => n.shortText
  | bool b => if b then "true" else "false"
  | null => "null"
  | undefined => "undefined"
  | array _ => "[...]"
  | object _ => "\x7b...\x7d"
  | construct name _ => "new " ++ name ++ "(...)"
  | identifier name => name
  | other _ text => text

end Expr
end DecoratedApi
