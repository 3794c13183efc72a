import DecoratedApi.Source.Token

/-!
# Statements

Statements and the clauses inside them. Most of them end with a semicolon or at a line break.
-/

namespace DecoratedApi.Source

open Grammar Grammar.Rule Grammar.Phrase

/-- Statements and their clauses. -/
def statementPhrases : List (Phrase Token) := [
  hidden "statement" <| choice [
    phrase "export_statement", phrase "import_statement", phrase "debugger_statement",
    phrase "expression_statement", phrase "declaration", phrase "statement_block",
    phrase "if_statement", phrase "switch_statement", phrase "for_statement",
    phrase "for_in_statement", phrase "while_statement", phrase "do_statement",
    phrase "try_statement", phrase "with_statement", phrase "break_statement",
    phrase "continue_statement", phrase "return_statement", phrase "throw_statement",
    phrase "empty_statement", phrase "labeled_statement"],
  shown "expression_statement" <| seq [phrase "expressions", phrase "semicolon"],
  shown "variable_declaration" <| seq [
    "var",
    separated "," (phrase "variable_declarator"), phrase "semicolon"],
  shown "lexical_declaration" <| seq [
    field "kind" (choice ["let", "const"]),
    separated "," (phrase "variable_declarator"), phrase "semicolon"],
  shown "variable_declarator" <| choice [
    seq [
      field "name" (choice [token .name, phrase "destructuring pattern"]),
      field "type" (opt (phrase "type_annotation")), opt (phrase "initializer")],
    level "declare" <| seq [
      field "name" (token .name), "!",
      field "type" (phrase "type_annotation")]],
  shown "statement_block" <| right <| seq [
    "\x7b", some (phrase "statement"), "\x7d", opt (token .lineEnd)],
  shown "else_clause" <| seq ["else", phrase "statement"],
  shown "if_statement" <| right <| seq [
    "if",
    field "condition" (phrase "parenthesized_expression"),
    field "consequence" (phrase "statement"),
    opt (field "alternative" (phrase "else_clause"))],
  shown "switch_statement" <| seq [
    "switch",
    field "value" (phrase "parenthesized_expression"),
    field "body" (phrase "switch_body")],
  shown "for_statement" <| seq [
    "for", "(",
    choice [
      field "initializer" (choice [phrase "lexical_declaration", phrase "variable_declaration"]),
      seq [field "initializer" (phrase "expressions"), ";"],
      field "initializer" (phrase "empty_statement")],
    field "condition" (choice [seq [phrase "expressions", ";"], phrase "empty_statement"]),
    field "increment" (opt (phrase "expressions")), ")",
    field "body" (phrase "statement")],
  shown "for_in_statement" <| seq [
    "for", opt "await", phrase "for header",
    field "body" (phrase "statement")],
  hidden "for header" <| seq [
    "(",
    choice [
      field "left" (choice [phrase "target", phrase "parenthesized_expression"]),
      seq [
        field "kind" "var",
        field "left" (choice [token .name, phrase "destructuring pattern"]),
        opt (phrase "initializer")],
      seq [
        field "kind" (choice ["let", "const"]),
        field "left" (choice [token .name, phrase "destructuring pattern"]), opt (token .lineEnd)]],
    field "operator" (choice ["in", "of"]),
    field "right" (phrase "expressions"), ")"],
  shown "while_statement" <| seq [
    "while",
    field "condition" (phrase "parenthesized_expression"),
    field "body" (phrase "statement")],
  shown "do_statement" <| right <| seq [
    "do",
    field "body" (phrase "statement"), "while",
    field "condition" (phrase "parenthesized_expression"), opt (phrase "semicolon")],
  shown "try_statement" <| seq [
    "try",
    field "body" (phrase "statement_block"),
    opt (field "handler" (phrase "catch_clause")),
    opt (field "finalizer" (phrase "finally_clause"))],
  shown "with_statement" <| seq [
    "with",
    field "object" (phrase "parenthesized_expression"),
    field "body" (phrase "statement")],
  shown "break_statement" <| seq [
    "break",
    field "label" (opt (called "statement_identifier" (token .name))), phrase "semicolon"],
  shown "continue_statement" <| seq [
    "continue",
    field "label" (opt (called "statement_identifier" (token .name))), phrase "semicolon"],
  shown "debugger_statement" <| seq ["debugger", phrase "semicolon"],
  shown "return_statement" <| seq ["return", opt (phrase "expressions"), phrase "semicolon"],
  shown "throw_statement" <| seq ["throw", phrase "expressions", phrase "semicolon"],
  shown "empty_statement" ";",
  shown "labeled_statement" <| weighed (-1) <| seq [
    field "label" <| called "statement_identifier" <| choice [
      token .name, phrase "reserved identifier"],
    ":",
    field "body" (phrase "statement")],
  shown "switch_body" <| seq [
    "\x7b",
    some (choice [phrase "switch_case", phrase "switch_default"]), "\x7d"],
  shown "switch_case" <| seq [
    "case",
    field "value" (phrase "expressions"), ":",
    field "body" (some (phrase "statement"))],
  shown "switch_default" <| seq ["default", ":", field "body" (some (phrase "statement"))],
  shown "catch_clause" <| seq [
    "catch",
    opt <| seq [
      "(",
      field "parameter" (choice [token .name, phrase "destructuring pattern"]),
      opt (field "type" (phrase "type_annotation")), ")"],
    field "body" (phrase "statement_block")],
  shown "finally_clause" <| seq ["finally", field "body" (phrase "statement_block")]]

end DecoratedApi.Source
