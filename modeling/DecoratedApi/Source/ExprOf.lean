import DecoratedApi.Declaration.Expr
import DecoratedApi.Source.Literal
import DecoratedApi.Source.Node

/-!
# Expressions of nodes

The expression that a node stands for. Literals are read, brackets and notes about types are looked
through, and every other expression keeps its kind and its text.
-/

namespace DecoratedApi.Source

/-- An expression of which only the kind and the text are kept. -/
def otherExpr (n : Node) : Expr := .other n.kind n.text

/-- The kinds of the names that entries of an object literal may have. -/
def plainKeys : List String := ["property_identifier", "string", "number"]

/-- The expression of a sign before an operand; none when it is not a sign before a number. -/
def signed? (sign : String) : Expr → Option Expr
  | .number x => if sign == "-" then some (.number x.neg) else if sign == "+" then some (.number x)
    else none
  | _ => none

/-- The expression that a template stands for. One with substitutions is not read. -/
def templateExpr (n : Node) : Expr :=
  if (n.partOf? "template_substitution").isSome then otherExpr n
  else .string (templateContent n.text)

def nameExpr (name : String) : Expr := if name == "undefined" then .undefined else .identifier name

def exprOf (n : Node) : Expr :=
  match n.kind with
  | "string" => .string (stringContent n.text)
  | "template_string" => templateExpr n
  | "number" => ((readNumber? n.text).map Expr.number).getD (otherExpr n)
  | "true" => .bool true
  | "false" => .bool false
  | "null" => .null
  | "undefined" => .undefined
  | "identifier" => nameExpr n.text
  | "unary_expression" =>
    match n.role? "operator", n.role? "argument" with
    | some sign, some operand => (signed? sign.1.text (exprOf operand.1)).getD (otherExpr n)
    | _, _ => otherExpr n
  | "array" => .array (n.parts.map fun item => exprOf item.1)
  | "object" =>
    let entries := n.parts.mapM fun entry =>
      match entry.1.role? "key", entry.1.role? "value" with
      | some key, some value =>
        if entry.1.kind == "pair" && plainKeys.contains key.1.kind then
          some (stringContent key.1.text, exprOf value.1)
        else none
      | _, _ => none
    (entries.map Expr.object).getD (otherExpr n)
  | "new_expression" =>
    match n.role? "constructor" with
    | none => otherExpr n
    | some name =>
      match n.role? "arguments" with
      | none => .construct name.1.text []
      | some arguments => .construct name.1.text (arguments.1.parts.map fun item => exprOf item.1)
  | "parenthesized_expression" | "as_expression" | "satisfies_expression"
  | "non_null_expression" =>
    match n.parts.head? with
    | some inner => exprOf inner.1
    | none => otherExpr n
  | _ => otherExpr n
termination_by sizeOf n
decreasing_by all_goals grind [→ Node.sizeOf_lt_of_mem]

end DecoratedApi.Source
