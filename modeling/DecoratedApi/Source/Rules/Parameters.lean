import DecoratedApi.Source.Token

/-!
# Parameters and annotations

The parameters of a function with what qualifies them, and the annotations behind a colon.
-/

namespace DecoratedApi.Source

open Grammar Grammar.Rule Grammar.Phrase

/-- Parameters and annotations. -/
def parameterPhrases : List (Phrase Token) := [
  shown "accessibility_modifier" <| choice ["public", "private", "protected"],
  shown "override_modifier" "override",
  shown "required_parameter" <| seq [
    phrase "parameter name",
    field "type" (opt (phrase "type_annotation")), opt (phrase "initializer")],
  shown "optional_parameter" <| seq [
    phrase "parameter name", "?",
    field "type" (opt (phrase "type_annotation")), opt (phrase "initializer")],
  hidden "parameter name" <| seq [
    some (field "decorator" (phrase "decorator")),
    opt (phrase "accessibility_modifier"), opt (phrase "override_modifier"), opt "readonly",
    field "pattern" (choice [phrase "pattern", "this"])],
  shown "omitting_type_annotation" <| seq ["-?:", phrase "type"],
  shown "adding_type_annotation" <| seq ["+?:", phrase "type"],
  shown "opting_type_annotation" <| seq ["?:", phrase "type"],
  shown "type_annotation" <| seq [
    ":",
    choice [
      phrase "type",
      called "member_expression" (phrase "imported member"),
      called "call_expression" (phrase "imported call")]],
  hidden "imported member" <| seq [
    field "object" <| choice [
      phrase "import",
      called "member_expression" (phrase "imported member"),
      called "call_expression" (phrase "imported call")],
    ".",
    field "property" (choice [token .privateName, called "property_identifier" (token .name)])],
  hidden "imported call" <| seq [
    field "function" <| choice [
      phrase "import",
      called "member_expression" (phrase "imported member")],
    field "arguments" (phrase "arguments")],
  shown "asserts" <| seq ["asserts", choice [phrase "type_predicate", token .name, "this"]],
  shown "asserts_annotation" <| seq [":", phrase "asserts"]]

end DecoratedApi.Source
