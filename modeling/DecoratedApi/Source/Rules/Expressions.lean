import DecoratedApi.Source.Token

/-!
# Expressions

Expressions, from the loosest to those that need no brackets, and the literals of objects and arrays
with the patterns that look like them. In a text with markup an element is an expression; in one
without, a type in angle brackets may stand before an operand.
-/

namespace DecoratedApi.Source

open Grammar Grammar.Rule Grammar.Phrase

def expressionRule (markup : Bool) : Rule Token := choice [
    phrase "as_expression", phrase "satisfies_expression", phrase "instantiation_expression",
    phrase "internal_module",
    if markup then phrase "markup" else phrase "type_assertion",
    phrase "primary expression", phrase "assignment_expression",
    phrase "augmented_assignment_expression", phrase "await_expression", phrase "unary_expression",
    phrase "binary_expression", phrase "ternary_expression", phrase "update_expression",
    phrase "new_expression", phrase "yield_expression"]

/-- Expressions, and the patterns that look like them. -/
def expressionPhrases (markup : Bool) : List (Phrase Token) := [
  shown "parenthesized_expression" <| seq [
    "(",
    choice [
      seq [phrase "expression", field "type" (opt (phrase "type_annotation"))],
      phrase "sequence_expression"],
    ")"],
  inlined "expressions" <| choice [phrase "expression", phrase "sequence_expression"],
  hidden "expression" (expressionRule markup),
  hidden "primary expression" <| choice [
    phrase "subscript_expression", phrase "member_expression",
    phrase "parenthesized_expression", phrase "identifier",
    called "identifier" (phrase "reserved identifier"), "this", "super", token .number,
    phrase "string", phrase "template_string", phrase "regex", "true", "false", "null",
    phrase "object", phrase "array", phrase "function_expression", phrase "arrow_function",
    phrase "generator_function", phrase "class", phrase "meta_property", phrase "call_expression",
    phrase "non_null_expression"],
  shown "yield_expression" <| right <| seq [
    "yield",
    choice [seq ["*", phrase "expression"], opt (phrase "expression")]],
  shown "object" <| level "object" <| seq [
    "\x7b",
    opt <| separated "," <| opt <| choice [
      phrase "pair", phrase "spread_element", phrase "method_definition",
      called "shorthand_property_identifier" (choice [token .name, phrase "reserved identifier"])],
    "\x7d"],
  shown "object_pattern" <| level "object" <| seq [
    "\x7b",
    opt <| separated "," <| opt <| choice [
      phrase "pair_pattern", phrase "rest_pattern",
      phrase "object_assignment_pattern",
      called "shorthand_property_identifier_pattern" <| choice [
        token .name, phrase "reserved identifier"]],
    "\x7d"],
  shown "assignment_pattern" <| seq [
    field "left" (phrase "pattern"), "=",
    field "right" (phrase "expression")],
  shown "object_assignment_pattern" <| seq [
    field "left" <| choice [
      called "shorthand_property_identifier_pattern" <| choice [
        phrase "reserved identifier", token .name],
      phrase "destructuring pattern"],
    "=",
    field "right" (phrase "expression")],
  shown "array" <| seq [
    "[",
    opt (separated "," (opt (choice [phrase "expression", phrase "spread_element"]))), "]"],
  shown "array_pattern" <| seq [
    "[",
    opt (separated "," (opt (choice [phrase "pattern", phrase "assignment_pattern"]))), "]"]]

end DecoratedApi.Source
