import DecoratedApi.Source.Token

/-!
# Types

Types as they are written in annotations.
-/

namespace DecoratedApi.Source

open Grammar Grammar.Rule Grammar.Phrase

def typePhrases : List (Phrase Token) := [
  hidden "type" <| choice [
    phrase "primary type", phrase "function_type", phrase "readonly_type",
    phrase "constructor_type", phrase "infer_type",
    held (.number (-1)) none (called "member_expression" (phrase "imported member")),
    held (.number (-1)) none (called "call_expression" (phrase "imported call"))],
  shown "tuple_parameter" <| seq [
    field "name" (choice [token .name, phrase "rest_pattern"]),
    field "type" (phrase "type_annotation")],
  shown "optional_tuple_parameter" <| seq [
    field "name" (token .name), "?",
    field "type" (phrase "type_annotation")],
  shown "optional_type" <| seq [phrase "type", "?"],
  shown "rest_type" <| seq ["...", phrase "type"],
  hidden "tuple type member" <| choice [
    called "required_parameter" (phrase "tuple_parameter"),
    called "optional_parameter" (phrase "optional_tuple_parameter"), phrase "optional_type",
    phrase "rest_type", phrase "type"],
  shown "constructor_type" <| left <| seq [
    opt "abstract", "new",
    field "type_parameters" (opt (phrase "type_parameters")),
    field "parameters" (phrase "formal_parameters"), "=>", field "type" (phrase "type")],
  hidden "primary type" <| choice [
    phrase "parenthesized_type", phrase "predefined_type", phrase "type identifier",
    phrase "nested_type_identifier", phrase "generic_type", phrase "object_type",
    phrase "array_type", phrase "tuple_type", phrase "flow_maybe_type", phrase "type_query",
    phrase "index_type_query", called "this_type" "this", phrase "existential_type",
    phrase "literal_type", phrase "lookup_type", phrase "conditional_type",
    phrase "template_literal_type", phrase "intersection_type", phrase "union_type", "const"],
  shown "template_type" <| seq [
    "$\x7b",
    choice [phrase "primary type", phrase "infer_type"], "\x7d"],
  shown "template_literal_type" <| seq [
    "\x60",
    some (choice [called "string_fragment" (token .templateText), phrase "template_type"]),
    "\x60"],
  shown "infer_type" <| right <| seq [
    "infer", phrase "type identifier",
    opt (seq ["extends", phrase "type"])],
  shown "conditional_type" <| right <| seq [
    field "left" (phrase "type"), "extends", field "right" (phrase "type"), "?",
    field "consequence" (phrase "type"), ":",
    field "alternative" (phrase "type")],
  shown "generic_type" <| level "call" <| seq [
    field "name" (choice [phrase "type identifier", phrase "nested_type_identifier"]),
    field "type_arguments" (phrase "type_arguments")],
  shown "type_predicate" <| seq [
    field "name" (choice [token .name, "this", called "identifier" (phrase "predefined_type")]),
    "is", field "type" (phrase "type")],
  shown "type_predicate_annotation" <| seq [":", phrase "type_predicate"],
  hidden "query member" <| seq [
    field "object" <| choice [
      token .name, "this",
      called "subscript_expression" (phrase "query subscript"),
      called "member_expression" (phrase "query member"),
      called "call_expression" (phrase "query call")],
    choice [".", "?."],
    field "property" (choice [token .privateName, called "property_identifier" (token .name)])],
  hidden "query subscript" <| seq [
    field "object" <| choice [
      token .name, "this",
      called "subscript_expression" (phrase "query subscript"),
      called "member_expression" (phrase "query member"),
      called "call_expression" (phrase "query call")],
    opt "?.", "[",
    field "index" (choice [phrase "predefined_type", phrase "string", token .number]), "]"],
  hidden "query call" <| seq [
    field "function" <| choice [
      phrase "import", token .name,
      called "member_expression" (phrase "query member"),
      called "subscript_expression" (phrase "query subscript")],
    field "arguments" (phrase "arguments")],
  hidden "query instantiation" <| seq [
    field "function" <| choice [
      phrase "import", token .name,
      called "member_expression" (phrase "query member"),
      called "subscript_expression" (phrase "query subscript")],
    field "type_arguments" (phrase "type_arguments")],
  shown "type_query" <| right <| seq [
    "typeof",
    choice [
      called "subscript_expression" (phrase "query subscript"),
      called "member_expression" (phrase "query member"),
      called "call_expression" (phrase "query call"),
      called "instantiation_expression" (phrase "query instantiation"), token .name, "this"]],
  shown "index_type_query" <| seq ["keyof", phrase "primary type"],
  shown "lookup_type" <| seq [phrase "primary type", "[", phrase "type", "]"],
  shown "mapped_type_clause" <| seq [
    field "name" (phrase "type identifier"), "in", field "type" (phrase "type"),
    opt (seq ["as", field "alias" (phrase "type")])],
  shown "literal_type" <| choice [
    called "unary_expression" (phrase "signed number"), token .number, phrase "string", "true",
    "false", "null", "undefined"],
  hidden "signed number" <| held (.number 1) (.some .left) <| seq [
    field "operator" (choice ["-", "+"]), field "argument" (token .number)],
  shown "existential_type" "*",
  shown "flow_maybe_type" <| right (seq ["?", phrase "primary type"]),
  shown "parenthesized_type" <| seq ["(", phrase "type", ")"],
  shown "predefined_type" <| choice [
    "any", "number", "boolean", "string", "symbol", seq ["unique", "symbol"], "void", "unknown",
    "string", "never", "object"],
  shown "type_arguments" <| seq ["<", separated "," (phrase "type"), opt ",", ">"],
  shown "object_type" <| seq [
    choice ["\x7b", "\x7b|"],
    opt <| seq [
      opt (choice [",", ";"]),
      separated (choice [",", phrase "semicolon"]) <| choice [
        phrase "export_statement", phrase "property_signature", phrase "call_signature",
        phrase "construct_signature", phrase "index_signature", phrase "method_signature"],
      opt (choice [",", phrase "semicolon"])],
    choice ["\x7d", "|\x7d"]],
  shown "call_signature" <| phrase "signature",
  shown "property_signature" <| seq [
    opt (phrase "accessibility_modifier"), opt "static", opt (phrase "override_modifier"),
    opt "readonly",
    field "name" (phrase "property name"), opt "?",
    field "type" (opt (phrase "type_annotation"))],
  shown "type_parameters" <| seq ["<", separated "," (phrase "type_parameter"), opt ",", ">"],
  shown "type_parameter" <| seq [
    opt "const",
    field "name" (phrase "type identifier"),
    field "constraint" (opt (phrase "constraint")),
    field "value" (opt (phrase "default_type"))],
  shown "default_type" <| seq ["=", phrase "type"],
  shown "constraint" <| seq [choice ["extends", ":"], phrase "type"],
  shown "construct_signature" <| seq [
    opt "abstract", "new",
    field "type_parameters" (opt (phrase "type_parameters")),
    field "parameters" (phrase "formal_parameters"),
    field "type" (opt (phrase "type_annotation"))],
  shown "index_signature" <| seq [
    opt (seq [field "sign" (opt (choice ["-", "+"])), "readonly"]), "[",
    choice [
      seq [
        field "name" (choice [token .name, called "identifier" (phrase "reserved identifier")]),
        ":",
        field "index_type" (phrase "type")],
      phrase "mapped_type_clause"],
    "]",
    field "type" <| choice [
      phrase "type_annotation",
      phrase "omitting_type_annotation", phrase "adding_type_annotation",
      phrase "opting_type_annotation"]],
  shown "array_type" <| seq [phrase "primary type", "[", "]"],
  shown "tuple_type" <| seq ["[", opt (separated "," (phrase "tuple type member")), opt ",", "]"],
  shown "readonly_type" <| seq ["readonly", phrase "type"],
  shown "union_type" <| left (seq [opt (phrase "type"), "|", phrase "type"]),
  shown "intersection_type" <| left (seq [opt (phrase "type"), "&", phrase "type"]),
  shown "function_type" <| left <| seq [
    field "type_parameters" (opt (phrase "type_parameters")),
    field "parameters" (phrase "formal_parameters"), "=>",
    field "return_type" (choice [phrase "type", phrase "asserts", phrase "type_predicate"])],
  inlined "type identifier" <| called "type_identifier" (token .name)]

end DecoratedApi.Source
