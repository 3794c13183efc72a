import DecoratedApi.Source.Token

/-!
# Classes and functions

A class or a function is an expression, and a declaration when it has a name and starts a statement.
-/

namespace DecoratedApi.Source

open Grammar Grammar.Rule Grammar.Phrase

/-- Classes, functions and their signatures. -/
def functionPhrases : List (Phrase Token) := [
  shown "class" <| level "literal" <| seq [
    some (field "decorator" (phrase "decorator")), "class",
    field "name" (opt (phrase "type identifier")),
    field "type_parameters" (opt (phrase "type_parameters")), opt (phrase "class_heritage"),
    field "body" (phrase "class_body")],
  shown "class_declaration" <| leftAt "declare" <| seq [
    some (field "decorator" (phrase "decorator")), "class",
    field "name" (phrase "type identifier"),
    field "type_parameters" (opt (phrase "type_parameters")), opt (phrase "class_heritage"),
    field "body" (phrase "class_body"), opt (token .lineEnd)],
  shown "class_heritage" <| choice [
    seq [phrase "extends_clause", opt (phrase "implements_clause")], phrase "implements_clause"],
  shown "function_expression" <| level "literal" <| seq [
    opt "async", "function", field "name" (opt (token .name)), phrase "signature",
    field "body" (phrase "statement_block")],
  shown "function_declaration" <| rightAt "declare" <| seq [
    opt "async", "function", field "name" (token .name), phrase "signature",
    field "body" (phrase "statement_block"), opt (token .lineEnd)],
  shown "generator_function" <| level "literal" <| seq [
    opt "async", "function", "*", field "name" (opt (token .name)), phrase "signature",
    field "body" (phrase "statement_block")],
  shown "generator_function_declaration" <| rightAt "declare" <| seq [
    opt "async", "function", "*", field "name" (token .name), phrase "signature",
    field "body" (phrase "statement_block"), opt (token .lineEnd)],
  shown "arrow_function" <| seq [
    opt "async",
    choice [
      field "parameter" (choice [called "identifier" (phrase "reserved identifier"), token .name]),
      phrase "signature"],
    "=>",
    field "body" (choice [phrase "expression", phrase "statement_block"])],
  hidden "signature" <| seq [
    field "type_parameters" (opt (phrase "type_parameters")),
    field "parameters" (phrase "formal_parameters"),
    field "return_type" <| opt <| choice [
      phrase "type_annotation", phrase "asserts_annotation",
      phrase "type_predicate_annotation"]],
  hidden "formal parameter" <| choice [phrase "required_parameter", phrase "optional_parameter"]]

end DecoratedApi.Source
