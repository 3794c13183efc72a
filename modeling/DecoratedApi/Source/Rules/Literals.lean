import DecoratedApi.Source.Token

/-!
# Literals

Texts in quotes and in backticks, regular expressions, and lists of arguments.
-/

namespace DecoratedApi.Source

open Grammar Grammar.Rule Grammar.Phrase

/-- Texts, patterns and arguments. -/
def literalPhrases : List (Phrase Token) := [
  shown "string" <| choice [
    seq [
      "\"",
      some (choice [called "string_fragment" (token .doubleFragment), token .escape]), "\""],
    seq [
      "\x27",
      some (choice [called "string_fragment" (token .singleFragment), token .escape]), "\x27"]],
  shown "template_string" <| seq [
    "\x60",
    some <| choice [
      called "string_fragment" (token .templateText), token .escape,
      phrase "template_substitution"],
    "\x60"],
  shown "template_substitution" <| seq ["$\x7b", phrase "expressions", "\x7d"],
  shown "regex" <| seq [
    "/",
    field "pattern" (token .regexBody), token .regexEnd,
    opt (field "flags" (token .regexFlags))],
  inlined "identifier" <| choice ["undefined", token .name],
  shown "meta_property" <| choice [seq ["new", ".", "target"], seq ["import", ".", "meta"]],
  shown "arguments" <| seq [
    "(",
    opt (separated "," (opt (choice [phrase "expression", phrase "spread_element"]))), ")"]]

end DecoratedApi.Source
