import DecoratedApi.Source.Token

/-!
# Markup

Elements with tags, attributes and text between the tags.
-/

namespace DecoratedApi.Source

open Grammar Grammar.Rule Grammar.Phrase

/-- Elements and attributes. -/
def markupPhrases : List (Phrase Token) := [
  shown "jsx_element" <| seq [
    field "open_tag" (phrase "jsx_opening_element"), some (phrase "markup child"),
    field "close_tag" (phrase "jsx_closing_element")],
  inlined "markup" <| choice [phrase "jsx_element", phrase "jsx_self_closing_element"],
  shown "jsx_expression" <| seq [
    "\x7b",
    opt (choice [phrase "expression", phrase "sequence_expression", phrase "spread_element"]),
    "\x7d"],
  inlined "markup child" <| choice [
    token .markupText, token .entity, phrase "markup", phrase "jsx_expression"],
  shown "jsx_opening_element" <| weighed (-1) (seq [phrase "markup opening", ">"]),
  inlined "markup word" <| choice [called "identifier" (token .markupName), token .name],
  shown "nested_identifier" <| level "member" <| seq [
    field "object" (choice [token .name, called "member_expression" (phrase "nested_identifier")]),
    ".",
    field "property" (called "property_identifier" (token .name))],
  shown "jsx_namespace_name" <| seq [phrase "markup word", ":", phrase "markup word"],
  inlined "markup element name" <| choice [
    phrase "markup word",
    called "member_expression" (phrase "nested_identifier"), phrase "jsx_namespace_name"],
  shown "jsx_closing_element" <| seq [
    "</",
    opt (field "name" (phrase "markup element name")), ">"],
  shown "jsx_self_closing_element" <| weighed (-1) (seq [phrase "markup opening", "/>"]),
  inlined "markup attribute" <| choice [phrase "jsx_attribute", phrase "jsx_expression"],
  inlined "markup attribute name" <| choice [
    called "property_identifier" (phrase "markup word"), phrase "jsx_namespace_name"],
  shown "jsx_attribute" <| seq [
    phrase "markup attribute name",
    opt (seq ["=", phrase "markup attribute value"])],
  hidden "markup string" <| choice [
    seq [
      "\"",
      some (choice [called "string_fragment" (token .doubleMarkupFragment), token .entity]), "\""],
    seq [
      "\x27",
      some (choice [called "string_fragment" (token .singleMarkupFragment), token .entity]),
      "\x27"]],
  inlined "markup attribute value" <| choice [
    called "string" (phrase "markup string"), phrase "jsx_expression", phrase "markup"]]

end DecoratedApi.Source
