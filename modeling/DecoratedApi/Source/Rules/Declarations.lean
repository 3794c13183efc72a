import DecoratedApi.Source.Token

/-!
# Declarations

Namespaces, interfaces, enums and aliases, and what a class extends and implements.
-/

namespace DecoratedApi.Source

open Grammar Grammar.Rule Grammar.Phrase

/-- Declarations of namespaces and types. -/
def declarationPhrases : List (Phrase Token) := [
  shown "import_require_clause" <| seq [
    token .name, "=", "require", "(", field "source" (phrase "string"), ")"],
  shown "extends_clause" <| seq ["extends", separated "," (phrase "extended value")],
  hidden "extended value" <| level "extends" <| seq [
    field "value" (phrase "expression"),
    field "type_arguments" (opt (phrase "type_arguments"))],
  shown "implements_clause" <| seq ["implements", separated "," (phrase "type")],
  shown "ambient_declaration" <| seq [
    "declare",
    choice [
      phrase "declaration",
      seq ["global", phrase "statement_block"],
      seq [
        "module", ".",
        called "property_identifier" (token .name), ":", phrase "type", phrase "semicolon"]]],
  shown "abstract_class_declaration" <| level "declare" <| seq [
    some (field "decorator" (phrase "decorator")), "abstract", "class",
    field "name" (phrase "type identifier"),
    field "type_parameters" (opt (phrase "type_parameters")), opt (phrase "class_heritage"),
    field "body" (phrase "class_body")],
  shown "module" <| seq ["module", phrase "module content"],
  shown "internal_module" <| seq ["namespace", phrase "module content"],
  hidden "module content" <| right <| seq [
    field "name" (choice [phrase "string", token .name, phrase "nested_identifier"]),
    field "body" (opt (phrase "statement_block"))],
  shown "import_alias" <| seq [
    "import", token .name, "=",
    choice [token .name, phrase "nested_identifier"], phrase "semicolon"],
  shown "nested_type_identifier" <| level "member" <| seq [
    field "module" (choice [token .name, phrase "nested_identifier"]), ".",
    field "name" (phrase "type identifier")],
  shown "interface_declaration" <| seq [
    "interface",
    field "name" (phrase "type identifier"),
    field "type_parameters" (opt (phrase "type_parameters")),
    opt (phrase "extends_type_clause"),
    field "body" (called "interface_body" (phrase "object_type"))],
  shown "extends_type_clause" <| seq [
    "extends",
    separated "," <| field "type" <| choice [
      phrase "type identifier", phrase "nested_type_identifier", phrase "generic_type"]],
  shown "enum_declaration" <| seq [
    opt "const", "enum", field "name" (token .name),
    field "body" (phrase "enum_body")],
  shown "enum_body" <| seq [
    "\x7b",
    opt <| seq [
      separated "," (choice [field "name" (phrase "property name"), phrase "enum_assignment"]),
      opt ","],
    "\x7d"],
  shown "enum_assignment" <| seq [field "name" (phrase "property name"), phrase "initializer"],
  shown "type_alias_declaration" <| seq [
    "type",
    field "name" (phrase "type identifier"),
    field "type_parameters" (opt (phrase "type_parameters")), "=", field "value" (phrase "type"),
    phrase "semicolon"]]

end DecoratedApi.Source
