import DecoratedApi.Calendar.Timestamp
import DecoratedApi.Declaration.TypeNode
import DecoratedApi.Error

/-!
# Values of literals

An expression made of literals has a JSON value, which is then fitted to the type that it
initializes.
-/

namespace DecoratedApi

def Literal.value : Literal → Json
  | string s => .string s
  | number n => .ofBinary64 n
  | bool b => .bool b

namespace Expr

mutual
/-- The value of an expression made of literals; none for `undefined`. In an array `undefined`
counts as `null`, and in an object such an entry is left out. -/
def evaluate : Expr → Outcome (Option Json)
  | string s => .ok (some (.string s))
  | number n => .ok (some (.ofBinary64 n))
  | bool b => .ok (some (.bool b))
  | null => .ok (some .null)
  | undefined => .ok none
  | array items => do
    let values ← evaluateItems items
    .ok (some (.array values))
  | object entries => do
    let members ← evaluateEntries entries []
    .ok (some (.object members))
  | construct name arguments =>
    if name = "Date" then
      match arguments with
      | [string s] => .ok (some (.string s))
      | [number millis] =>
        match Timestamp.ofMillis? millis.toInt64 with
        | some t => .ok (some (.string t.text))
        | none => .error (.invalidDate (construct name arguments).describe)
      | _ => .error (.notStatic (construct name arguments).describe)
    else .error (.notStatic (construct name arguments).describe)
  | identifier name => .error (.notStatic (identifier name).describe)
  | other kind text => .error (.notStatic (other kind text).describe)

def evaluateItems : List Expr → Outcome (List Json)
  | [] => .ok []
  | e :: rest => do
    let value ← evaluate e
    let values ← evaluateItems rest
    .ok (value.getD .null :: values)

/-- The values of the entries of an object, set on top of the members before them. -/
def evaluateEntries : List (String × Expr) → List (String × Json) → Outcome (List (String × Json))
  | [], members => .ok members
  | (key, e) :: rest, members => do
    let value ← evaluate e
    match value with
    | some v => evaluateEntries rest (OrderedMap.set key v members)
    | none => evaluateEntries rest members
end

/-- The value of an example, where `undefined` counts as `null`. -/
def exampleValue (e : Expr) : Outcome Json := do
  let value ← e.evaluate
  .ok (value.getD .null)

end Expr

namespace ApiType

/-- Fits a value to a type. Whole numbers lose their fraction, dates are put into their written
form, and every other fitting value is kept. -/
def coerce : ApiType → Json → Outcome Json
  | _, .null => .ok .null
  | integer, .number n | long, .number n =>
    if n.toBinary64.isWhole then .ok (.ofBinary64 n.toBinary64)
    else .error (.notInteger (.number n))
  | double, .number n | float, .number n => .ok (.number n)
  | string, .string s => .ok (.string s)
  | boolean, .bool b => .ok (.bool b)
  | date, .string s =>
    match Timestamp.read? s with
    | some t => .ok (.string t.dateText)
    | none => .error (.invalidDate s)
  | datetime, .string s =>
    match Timestamp.read? s with
    | some t => .ok (.string t.text)
    | none => .error (.invalidDate s)
  | enum values, v => if values.any (·.same v) then .ok v else .error (.notListed v)
  | array element, .array items => do
    let values ← items.mapM (coerce element)
    .ok (.array values)
  | any, v | object, v | refObject _, v | refEnum _, v => .ok v
  | type, v => .error (.wrongKind v type)

/-- The value of an initializer, fitted to the type. -/
def defaultOf (type : ApiType) (e : Expr) : Outcome (Option Json) := do
  match ← e.evaluate with
  | some v =>
    let fitted ← type.coerce v
    .ok (some fitted)
  | none => .ok none

end ApiType
end DecoratedApi
