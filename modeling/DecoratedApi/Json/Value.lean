import DecoratedApi.Number.Binary64
import DecoratedApi.OrderedMap

/-!
# JSON values

A number keeps the form it was written in: an integer without a sign below `2 ^ 64`, a negative
integer down to `-2 ^ 63`, or a binary64 number. An object is the list of its members in the order
in which their names first came.
-/

namespace DecoratedApi

/-- A JSON number. `integer` holds what fits in 64 bits, with or without a sign. -/
inductive JsonNumber
  | integer (n : Int)
  | float (x : Binary64)
deriving DecidableEq, Repr

inductive Json
  | null
  | bool (b : Bool)
  | number (n : JsonNumber)
  | string (s : String)
  | array (items : List Json)
  | object (members : List (String × Json))
deriving Inhabited, Repr

namespace JsonNumber

/-- Two numbers are the same when both are integers or both are floats, and their values agree. -/
def same : JsonNumber → JsonNumber → Bool
  | integer a, integer b => a == b
  | float a, float b => a.sameValue b
  | _, _ => false

def toBinary64 : JsonNumber → Binary64
  | integer n => Binary64.ofInt n
  | float x => x

end JsonNumber

namespace Json

def ofInt (n : Int) : Json := number (.integer n)

mutual
/-- Two values are the same when they have the same shape, and objects have the same members in
any order. -/
def same : Json → Json → Bool
  | null, null => true
  | bool a, bool b => a == b
  | number a, number b => a.same b
  | string a, string b => a == b
  | array as, array bs => sameItems as bs
  | object as, object bs => as.length == bs.length && sameMembers as bs
  | _, _ => false

def sameItems : List Json → List Json → Bool
  | [], [] => true
  | a :: as, b :: bs => same a b && sameItems as bs
  | _, _ => false

/-- Every member has a counterpart among the others. -/
def sameMembers : List (String × Json) → List (String × Json) → Bool
  | [], _ => true
  | (k, a) :: as, bs =>
    (match OrderedMap.find? k bs with
      | some b => same a b
      | none => false) && sameMembers as bs
end

def isString : Json → Bool
  | string _ => true
  | _ => false

def isNumber : Json → Bool
  | number _ => true
  | _ => false

def string? : Json → Option String
  | string s => some s
  | _ => none

/-- The JSON image of a number: a whole number below `2 ^ 53` is an integer, any other finite number
is a float, and what JSON cannot write is `null`. -/
def ofBinary64 (x : Binary64) : Json :=
  if x.isWhole ∧ x.truncate.natAbs < Nat.pow 2 53 then ofInt x.truncate
  else if x.isFinite then number (.float x)
  else null

end Json
end DecoratedApi
