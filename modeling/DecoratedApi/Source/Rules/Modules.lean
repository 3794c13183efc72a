import DecoratedApi.Source.Token

/-!
# Modules

What a whole text is: statements, and among them what the text takes from other modules and what it
gives to them.
-/

namespace DecoratedApi.Source

open Grammar Grammar.Rule Grammar.Phrase

/-- Texts, exports and imports. -/
def modulePhrases : List (Phrase Token) := [
  shown "program" <| seq [opt (token .runLine), some (phrase "statement")],
  shown "export_statement" <| choice [
    seq [
      "export",
      choice [
        seq ["*", phrase "from clause"],
        seq [phrase "namespace_export", phrase "from clause"],
        seq [phrase "export_clause", phrase "from clause"], phrase "export_clause"],
      phrase "semicolon"],
    seq [
      some (field "decorator" (phrase "decorator")), "export",
      choice [
        field "declaration" (phrase "declaration"),
        seq [
          "default",
          choice [
            field "declaration" (phrase "declaration"),
            seq [field "value" (phrase "expression"), phrase "semicolon"]]]]],
    seq ["export", "type", phrase "export_clause", opt (phrase "from clause"), phrase "semicolon"],
    seq ["export", "import", phrase "import_alias"],
    seq ["export", "=", phrase "expression", phrase "semicolon"],
    seq ["export", "as", "namespace", token .name, phrase "semicolon"]],
  shown "namespace_export" <| seq ["*", "as", phrase "module export name"],
  shown "export_clause" <| seq [
    "\x7b",
    opt (separated "," (phrase "export_specifier")), opt ",", "\x7d"],
  shown "export_specifier" <| seq [
    opt (choice ["type", "typeof"]),
    field "name" (phrase "module export name"),
    opt (seq ["as", field "alias" (phrase "module export name")])],
  hidden "module export name" <| choice [token .name, phrase "string"],
  hidden "declaration" <| choice [
    phrase "function_declaration",
    phrase "generator_function_declaration", phrase "class_declaration",
    phrase "lexical_declaration", phrase "variable_declaration", phrase "function_signature",
    phrase "abstract_class_declaration", phrase "module",
    level "declare" (phrase "internal_module"), phrase "type_alias_declaration",
    phrase "enum_declaration", phrase "interface_declaration", phrase "import_alias",
    phrase "ambient_declaration"],
  shown "import" "import",
  shown "import_statement" <| seq [
    "import", opt (choice ["type", "typeof"]),
    choice [
      seq [phrase "import_clause", phrase "from clause"], phrase "import_require_clause",
      field "source" (phrase "string")],
    opt (phrase "import_attribute"), phrase "semicolon"],
  shown "import_clause" <| choice [
    phrase "namespace_import", phrase "named_imports",
    seq [
      phrase "import identifier",
      opt (seq [",", choice [phrase "namespace_import", phrase "named_imports"]])]],
  hidden "from clause" <| seq ["from", field "source" (phrase "string")],
  shown "namespace_import" <| seq ["*", "as", token .name],
  shown "named_imports" <| seq [
    "\x7b",
    opt (separated "," (phrase "import_specifier")), opt ",", "\x7d"],
  shown "import_specifier" <| seq [
    opt (choice ["type", "typeof"]),
    choice [
      field "name" (phrase "import identifier"),
      seq [
        field "name" (choice [phrase "module export name", called "identifier" "default"]), "as",
        field "alias" (phrase "import identifier")]]],
  shown "import_attribute" <| seq ["with", phrase "object"]]

end DecoratedApi.Source
