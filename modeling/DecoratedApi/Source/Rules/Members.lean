import DecoratedApi.Source.Token

/-!
# Members

Decorators, the members of classes and objects, and the names under which members are known.
-/

namespace DecoratedApi.Source

open Grammar Grammar.Rule Grammar.Phrase

/-- Decorators and members. -/
def memberPhrases : List (Phrase Token) := [
  shown "decorator" <| seq [
    "@",
    choice [
      token .name,
      called "member_expression" (phrase "decorator_member_expression"),
      called "call_expression" (phrase "decorator_call_expression"),
      called "parenthesized_expression" (phrase "decorator_parenthesized_expression")]],
  shown "decorator_member_expression" <| level "member" <| seq [
    field "object" <| choice [
      token .name,
      called "member_expression" (phrase "decorator_member_expression")],
    ".",
    field "property" (called "property_identifier" (token .name))],
  shown "decorator_call_expression" <| level "call" <| seq [
    field "function" <| choice [
      token .name,
      called "member_expression" (phrase "decorator_member_expression")],
    opt (field "type_arguments" (phrase "type_arguments")),
    field "arguments" (phrase "arguments")],
  shown "class_body" <| seq [
    "\x7b",
    some <| choice [
      seq [
        some (field "decorator" (phrase "decorator")), phrase "method_definition",
        opt (phrase "semicolon")],
      seq [phrase "method_signature", choice [token .signatureEnd, ","]],
      phrase "class_static_block",
      seq [
        choice [
          phrase "abstract_method_signature", phrase "index_signature", phrase "method_signature",
          phrase "public_field_definition"],
        choice [phrase "semicolon", ","]],
      ";"],
    "\x7d"],
  shown "formal_parameters" <| seq [
    "(",
    opt (seq [separated "," (phrase "formal parameter"), opt ","]), ")"],
  shown "class_static_block" <| seq ["static", field "body" (phrase "statement_block")],
  hidden "pattern" <| weighed (-1) (choice [phrase "target", phrase "rest_pattern"]),
  shown "rest_pattern" <| right (seq ["...", phrase "target"]),
  shown "method_definition" <| left <| seq [
    opt (phrase "accessibility_modifier"), opt "static", opt (phrase "override_modifier"),
    opt "readonly", opt "async", opt (choice ["get", "set", "*"]),
    field "name" (phrase "property name"), opt "?", phrase "signature",
    field "body" (phrase "statement_block")],
  shown "pair" <| seq [
    field "key" (phrase "property name"), ":",
    field "value" (phrase "expression")],
  shown "pair_pattern" <| seq [
    field "key" (phrase "property name"), ":",
    field "value" (choice [phrase "pattern", phrase "assignment_pattern"])],
  hidden "property name" <| choice [
    called "property_identifier" (choice [token .name, phrase "reserved identifier"]),
    token .privateName, phrase "string", token .number, phrase "computed_property_name"],
  shown "computed_property_name" <| seq ["[", phrase "expression", "]"],
  inlined "reserved identifier" <| choice [
    "declare", "namespace", "type", "public", "private", "protected", "override", "readonly",
    "module", "any", "number", "boolean", "string", "symbol", "export", "object", "new", "get",
    "set", "async", "static", "let"],
  inlined "semicolon" <| choice [token .lineEnd, ";"]]

end DecoratedApi.Source
