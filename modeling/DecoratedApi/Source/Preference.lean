import DecoratedApi.Grammar.Rule

/-!
# Preferences

Which of two rules holds its parts more tightly, where a text could be read by both. Each order
lists the tighter ones first.
-/

namespace DecoratedApi.Source

open Grammar

/-- The orders of preference between levels and phrases. -/
def preferences : List (List (Rank String)) := [
    [.level "member", .level "template call", .level "call", .phrase "update_expression",
      .level "unary void", .level "binary exp", .level "binary times", .level "binary plus",
      .level "binary shift", .level "binary compare", .level "binary relation",
      .level "binary equality", .level "bitwise and", .level "bitwise xor", .level "bitwise or",
      .level "logical and", .level "logical or", .level "ternary", .phrase "sequence_expression",
      .phrase "arrow_function"],
    [.level "assign", .phrase "primary expression"],
    [.level "member", .level "template call", .level "new", .level "call", .phrase "expression"],
    [.level "declare", .level "literal"],
    [.phrase "primary expression", .phrase "statement_block", .level "object"],
    [.phrase "meta_property", .phrase "import"],
    [.phrase "import_statement", .phrase "import"],
    [.phrase "export_statement", .phrase "primary expression"],
    [.phrase "lexical_declaration", .phrase "primary expression"],
    [.level "call", .level "instantiation", .level "unary", .level "binary",
      .phrase "await_expression", .phrase "arrow_function"],
    [.level "extends", .level "instantiation"],
    [.phrase "intersection_type", .phrase "union_type", .phrase "conditional_type",
      .phrase "function_type", .level "binary", .phrase "type_predicate",
      .phrase "readonly_type"],
    [.phrase "mapped_type_clause", .phrase "primary expression"],
    [.phrase "accessibility_modifier", .phrase "primary expression"],
    [.level "unary void", .phrase "expression"],
    [.phrase "extends_clause", .phrase "primary expression"],
    [.level "unary", .level "assign"],
    [.level "declare", .phrase "expression"],
    [.phrase "predefined_type", .phrase "unary_expression"],
    [.phrase "type", .phrase "flow_maybe_type"],
    [.phrase "tuple_type", .phrase "array_type", .phrase "pattern", .phrase "type"],
    [.phrase "readonly_type", .phrase "pattern"],
    [.phrase "readonly_type", .phrase "primary expression"],
    [.phrase "type_query", .phrase "subscript_expression", .phrase "expression"],
    [.phrase "type_query", .phrase "query subscript"],
    [.phrase "nested_type_identifier", .phrase "generic_type", .phrase "primary type",
      .phrase "lookup_type", .phrase "index_type_query", .phrase "type"],
    [.phrase "as_expression", .phrase "satisfies_expression", .phrase "primary type"],
    [.phrase "query member", .phrase "member_expression"],
    [.phrase "member_expression", .phrase "imported member"],
    [.phrase "query member", .phrase "primary expression"],
    [.phrase "query subscript", .phrase "subscript_expression"],
    [.phrase "query subscript", .phrase "primary expression"],
    [.phrase "query call", .phrase "primary expression"],
    [.phrase "query instantiation", .phrase "primary expression"],
    [.phrase "type_query", .phrase "primary expression"],
    [.phrase "override_modifier", .phrase "primary expression"],
    [.phrase "decorator_call_expression", .phrase "decorator"],
    [.phrase "literal_type", .phrase "pattern"],
    [.phrase "predefined_type", .phrase "pattern"],
    [.phrase "call_expression", .phrase "query call"],
    [.phrase "call_expression", .phrase "imported call"],
    [.phrase "new_expression", .phrase "primary expression"],
    [.phrase "meta_property", .phrase "primary expression"],
    [.phrase "construct_signature", .phrase "property name"]]

end DecoratedApi.Source
