import DecoratedApi.Source.Token

/-!
# Operations

Calls, accesses, assignments and operators, each at its level. A binary operator leans to the left,
and only the power leans to the right.
-/

namespace DecoratedApi.Source

open Grammar Grammar.Rule Grammar.Phrase

/-- The binary operators that take expressions on both sides, with their levels. -/
def binaryLevels : List (String × String) := [
  ("&&", "logical and"), ("||", "logical or"), (">>", "binary shift"), (">>>", "binary shift"),
  ("<<", "binary shift"), ("&", "bitwise and"), ("^", "bitwise xor"), ("|", "bitwise or"),
  ("+", "binary plus"), ("-", "binary plus"), ("*", "binary times"), ("/", "binary times"),
  ("%", "binary times"), ("<", "binary relation"), ("<=", "binary relation"),
  ("==", "binary equality"), ("===", "binary equality"), ("!=", "binary equality"),
  ("!==", "binary equality"), (">=", "binary relation"), (">", "binary relation"),
  ("??", "ternary"), ("instanceof", "binary relation")]

/-- An operator between two operands. -/
def between (left : Rule Token) (operator : String) : Rule Token :=
  seq [field "left" left, field "operator" operator, field "right" (phrase "expression")]

def binaryRules : List (Rule Token) :=
  binaryLevels.map (fun (operator, level) =>
      leftAt level (between (phrase "expression") operator)) ++
    [rightAt "binary exp" (between (phrase "expression") "**"),
      leftAt "binary relation" (between (choice [phrase "expression", token .privateName]) "in")]

/-- Calls, accesses, assignments and operators. -/
def operationPhrases : List (Phrase Token) := [
  shown "optional_chain" "?.",
  shown "call_expression" <| choice [
    level "call" <| seq [
      field "function" (choice [phrase "expression", phrase "import"]),
      field "type_arguments" (opt (phrase "type_arguments")),
      field "arguments" (phrase "arguments")],
    level "template call" <| seq [
      field "function" (choice [phrase "primary expression", phrase "new_expression"]),
      field "arguments" (phrase "template_string")],
    level "member" <| seq [
      field "function" (phrase "primary expression"), "?.",
      field "type_arguments" (opt (phrase "type_arguments")),
      field "arguments" (phrase "arguments")]],
  shown "new_expression" <| rightAt "new" <| seq [
    "new",
    field "constructor" (phrase "primary expression"),
    field "type_arguments" (opt (phrase "type_arguments")),
    field "arguments" (opt (phrase "arguments"))],
  shown "await_expression" <| level "unary void" (seq ["await", phrase "expression"]),
  shown "member_expression" <| level "member" <| seq [
    field "object" (choice [phrase "expression", phrase "primary expression", phrase "import"]),
    choice [".", field "optional_chain" (phrase "optional_chain")],
    field "property" (choice [token .privateName, called "property_identifier" (token .name)])],
  shown "subscript_expression" <| rightAt "member" <| seq [
    field "object" (choice [phrase "expression", phrase "primary expression"]),
    opt (field "optional_chain" (phrase "optional_chain")), "[",
    field "index" (phrase "expressions"), "]"],
  inlined "target" <| choice [
    phrase "member_expression", phrase "subscript_expression", phrase "identifier",
    called "identifier" (phrase "reserved identifier"), phrase "destructuring pattern",
    phrase "non_null_expression"],
  shown "assignment_expression" <| rightAt "assign" <| seq [
    opt "using",
    field "left" (choice [phrase "parenthesized_expression", phrase "target"]), "=",
    field "right" (phrase "expression")],
  hidden "augmented target" <| choice [
    phrase "member_expression", phrase "subscript_expression",
    called "identifier" (phrase "reserved identifier"), token .name,
    phrase "parenthesized_expression", phrase "non_null_expression"],
  shown "augmented_assignment_expression" <| rightAt "assign" <| seq [
    field "left" (phrase "augmented target"),
    field "operator" <| choice [
      "+=", "-=", "*=", "/=", "%=", "^=", "&=", "|=", ">>=", ">>>=", "<<=", "**=", "&&=", "||=",
      "??="],
    field "right" (phrase "expression")],
  hidden "initializer" <| seq ["=", field "value" (phrase "expression")],
  hidden "destructuring pattern" <| choice [phrase "object_pattern", phrase "array_pattern"],
  shown "spread_element" <| seq ["...", phrase "expression"],
  shown "ternary_expression" <| rightAt "ternary" <| seq [
    field "condition" (phrase "expression"), token .question,
    field "consequence" (phrase "expression"), ":",
    field "alternative" (phrase "expression")],
  shown "binary_expression" (choice binaryRules),
  shown "unary_expression" <| leftAt "unary void" <| seq [
    field "operator" (choice ["!", "~", "-", "+", "typeof", "void", "delete"]),
    field "argument" (phrase "expression")],
  shown "update_expression" <| left <| choice [
    seq [field "argument" (phrase "expression"), field "operator" (choice ["++", "--"])],
    seq [field "operator" (choice ["++", "--"]), field "argument" (phrase "expression")]],
  shown "sequence_expression" <| right (separated "," (phrase "expression"))]

end DecoratedApi.Source
