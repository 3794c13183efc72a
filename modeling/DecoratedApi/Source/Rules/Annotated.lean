import DecoratedApi.Source.Token

/-!
# Fields, signatures and typed expressions

Fields of classes, methods without a body, and expressions that mention a type.
-/

namespace DecoratedApi.Source

open Grammar Grammar.Rule Grammar.Phrase

/-- Fields, signatures and typed expressions. -/
def annotatedPhrases : List (Phrase Token) := [
  shown "public_field_definition" <| seq [
    some (field "decorator" (phrase "decorator")),
    opt <| choice [
      seq ["declare", opt (phrase "accessibility_modifier")],
      seq [phrase "accessibility_modifier", opt "declare"]],
    choice [
      seq [opt "static", opt (phrase "override_modifier"), opt "readonly"],
      seq [opt "abstract", opt "readonly"],
      seq [opt "readonly", opt "abstract"], opt "accessor"],
    field "name" (phrase "property name"), opt (choice ["?", "!"]),
    field "type" (opt (phrase "type_annotation")), opt (phrase "initializer")],
  inlined "markup opening" <| seq [
    "<",
    opt <| seq [
      choice [
        field "name" (choice [phrase "markup word", phrase "jsx_namespace_name"]),
        seq [
          field "name" <| choice [
            token .name,
            called "member_expression" (phrase "nested_identifier")],
          field "type_arguments" (opt (phrase "type_arguments"))]],
      some (field "attribute" (phrase "markup attribute"))]],
  hidden "import identifier" <| choice [token .name, called "identifier" "type"],
  shown "non_null_expression" <| leftAt "unary" (seq [phrase "expression", "!"]),
  shown "method_signature" <| seq [
    opt (phrase "accessibility_modifier"), opt "static", opt (phrase "override_modifier"),
    opt "readonly", opt "async", opt (choice ["get", "set", "*"]),
    field "name" (phrase "property name"), opt "?", phrase "signature"],
  shown "abstract_method_signature" <| seq [
    opt (phrase "accessibility_modifier"), "abstract", opt (phrase "override_modifier"),
    opt (choice ["get", "set", "*"]),
    field "name" (phrase "property name"), opt "?", phrase "signature"],
  shown "function_signature" <| seq [
    opt "async", "function", field "name" (token .name), phrase "signature",
    choice [phrase "semicolon", token .signatureEnd]],
  shown "decorator_parenthesized_expression" <| seq [
    "(",
    choice [
      token .name,
      called "member_expression" (phrase "decorator_member_expression"),
      called "call_expression" (phrase "decorator_call_expression")],
    ")"],
  shown "type_assertion" <| leftAt "unary" (seq [phrase "type_arguments", phrase "expression"]),
  shown "as_expression" <| leftAt "binary" <| seq [
    phrase "expression", "as", choice ["const", phrase "type"]],
  shown "satisfies_expression" <| leftAt "binary" <| seq [
    phrase "expression", "satisfies", phrase "type"],
  shown "instantiation_expression" <| level "instantiation" <| seq [
    phrase "expression",
    field "type_arguments" (phrase "type_arguments")]]

end DecoratedApi.Source
