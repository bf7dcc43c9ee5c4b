import FunctionInventory.Language.JavaScript

/-!
# The grammar of TypeScript

TypeScript extends JavaScript by types, and comes in two dialects: plain TypeScript
has type assertions in angle brackets, TSX has JSX elements in their place.
-/
namespace FunctionInventory.TypeScript

open Rule JavaScript

/-- The base rule of a name, to be extended. -/
private def base (name : String) : Rule := (baseRules.lookup name).getD .blank

/-- The parts of expressions that both dialects share. -/
private def commonExpressions : List Rule := [ref "assignment_expression",
  ref "augmented_assignment_expression", ref "await_expression", ref "unary_expression",
  ref "binary_expression", ref "ternary_expression", ref "update_expression",
  ref "new_expression", ref "yield_expression"]

/-- A list of modifiers, each of which may be missing. -/
private def modifiers : Rule := sequence [optional (ref "accessibility_modifier"),
  optional "static", optional (ref "override_modifier"), optional "readonly"]

private def accessor : Rule := optional (oneOf ["get", "set", "*"])

/-- What can stand before a dot, a bracket or an argument list in a type query. -/
private def queryMember : Rule := named "member_expression" (ref "_type_query_member_expression")

private def querySubscript : Rule :=
  named "subscript_expression" (ref "_type_query_subscript_expression")

private def queryCall : Rule := named "call_expression" (ref "_type_query_call_expression")

private def annotationMember : Rule :=
  named "member_expression" (ref "_type_query_member_expression_in_type_annotation")

private def annotationCall : Rule :=
  named "call_expression" (ref "_type_query_call_expression_in_type_annotation")

private def typeParameters : Rule := field "type_parameters" (optional (ref "type_parameters"))

private def typeArguments : Rule := field "type_arguments" (optional (ref "type_arguments"))

private def typeAnnotation : Rule := field "type" (optional (ref "type_annotation"))

private def property : Rule := field "property" (oneOf [ref "private_property_identifier",
  named "property_identifier" (ref "identifier")])

/-- The rules that TypeScript changes or adds. -/
def changes (jsx : Bool) : List (String × Rule) := [
  ("public_field_definition", sequence [many (field "decorator" (ref "decorator")),
    optional (oneOf [
      sequence ["declare", optional (ref "accessibility_modifier")],
      sequence [ref "accessibility_modifier", optional "declare"]]),
    oneOf [
      sequence [optional "static", optional (ref "override_modifier"), optional "readonly"],
      sequence [optional "abstract", optional "readonly"],
      sequence [optional "readonly", optional "abstract"],
      optional "accessor"],
    field "name" (ref "_property_name"), optional (oneOf ["?", "!"]), typeAnnotation,
    optional (ref "_initializer")]),
  ("catch_clause", sequence ["catch",
    optional (sequence ["(",
      field "parameter" (oneOf [ref "identifier", ref "_destructuring_pattern"]),
      optional (field "type" (ref "type_annotation")), ")"]),
    field "body" (ref "statement_block")]),
  ("call_expression", oneOf [
    binding "call" (sequence [field "function" (oneOf [ref "expression", ref "import"]),
      typeArguments, field "arguments" (ref "arguments")]),
    binding "template_call" (sequence [
      field "function" (oneOf [ref "primary_expression", ref "new_expression"]),
      field "arguments" (ref "template_string")]),
    binding "member" (sequence [field "function" (ref "primary_expression"), "?.", typeArguments,
      field "arguments" (ref "arguments")])]),
  ("new_expression", bindingRight "new" (sequence ["new",
    field "constructor" (ref "primary_expression"), typeArguments,
    field "arguments" (optional (ref "arguments"))])),
  ("assignment_expression", bindingRight "assign" (sequence [optional "using",
    field "left" (oneOf [ref "parenthesized_expression", ref "_lhs_expression"]), "=",
    field "right" (ref "expression")])),
  ("_augmented_assignment_lhs", oneOf [base "_augmented_assignment_lhs",
    ref "non_null_expression"]),
  ("_lhs_expression", oneOf [base "_lhs_expression", ref "non_null_expression"]),
  ("primary_expression", oneOf [base "primary_expression", ref "non_null_expression"]),
  ("expression", oneOf ([ref "as_expression", ref "satisfies_expression",
      ref "instantiation_expression", ref "internal_module"] ++
    (if jsx then [ref "primary_expression", ref "_jsx_element"]
      else [ref "type_assertion", ref "primary_expression"]) ++ commonExpressions)),
  ("_jsx_start_opening_element", sequence ["<",
    optional (sequence [
      oneOf [
        field "name" (oneOf [ref "_jsx_identifier", ref "jsx_namespace_name"]),
        sequence [
          field "name" (oneOf [ref "identifier",
            named "member_expression" (ref "nested_identifier")]),
          typeArguments]],
      many (field "attribute" (ref "_jsx_attribute"))])]),
  ("jsx_opening_element", dynamic (-1) (sequence [ref "_jsx_start_opening_element", ">"])),
  ("jsx_self_closing_element", dynamic (-1) (sequence [ref "_jsx_start_opening_element", "/>"])),
  ("export_specifier", sequence [optional (oneOf ["type", "typeof"]), base "export_specifier"]),
  ("_import_identifier", oneOf [ref "identifier", named "identifier" "type"]),
  ("import_specifier", sequence [optional (oneOf ["type", "typeof"]),
    oneOf [
      field "name" (ref "_import_identifier"),
      sequence [field "name" (oneOf [ref "_module_export_name", named "identifier" "type"]),
        "as", field "alias" (ref "_import_identifier")]]]),
  ("import_clause", oneOf [ref "namespace_import", ref "named_imports",
    sequence [ref "_import_identifier",
      optional (sequence [",", oneOf [ref "namespace_import", ref "named_imports"]])]]),
  ("import_statement", sequence ["import", optional (oneOf ["type", "typeof"]),
    oneOf [sequence [ref "import_clause", ref "_from_clause"], ref "import_require_clause",
      field "source" (ref "string")],
    optional (ref "import_attribute"), ref "_semicolon"]),
  ("export_statement", oneOf [base "export_statement",
    sequence ["export", "type", ref "export_clause", optional (ref "_from_clause"),
      ref "_semicolon"],
    sequence ["export", "import", ref "import_alias"],
    sequence ["export", "=", ref "expression", ref "_semicolon"],
    sequence ["export", "as", "namespace", ref "identifier", ref "_semicolon"]]),
  ("non_null_expression", bindingLeft "unary" (sequence [ref "expression", "!"])),
  ("variable_declarator", oneOf [
    sequence [field "name" (oneOf [ref "identifier", ref "_destructuring_pattern"]),
      typeAnnotation, optional (ref "_initializer")],
    binding "declare" (sequence [field "name" (ref "identifier"), "!",
      field "type" (ref "type_annotation")])]),
  ("method_signature", sequence [modifiers, optional "async", accessor,
    field "name" (ref "_property_name"), optional "?", ref "_call_signature"]),
  ("abstract_method_signature", sequence [optional (ref "accessibility_modifier"), "abstract",
    optional (ref "override_modifier"), accessor, field "name" (ref "_property_name"),
    optional "?", ref "_call_signature"]),
  ("parenthesized_expression", sequence ["(",
    oneOf [sequence [ref "expression", typeAnnotation], ref "sequence_expression"], ")"]),
  ("_formal_parameter", oneOf [ref "required_parameter", ref "optional_parameter"]),
  ("function_signature", sequence [optional "async", "function", field "name" (ref "identifier"),
    ref "_call_signature",
    oneOf [ref "_semicolon", ref "_function_signature_automatic_semicolon"]]),
  ("decorator", sequence ["@", oneOf [ref "identifier",
    named "member_expression" (ref "decorator_member_expression"),
    named "call_expression" (ref "decorator_call_expression"),
    named "parenthesized_expression" (ref "decorator_parenthesized_expression")]]),
  ("decorator_call_expression", binding "call" (sequence [
    field "function" (oneOf [ref "identifier",
      named "member_expression" (ref "decorator_member_expression")]),
    optional (field "type_arguments" (ref "type_arguments")), field "arguments" (ref "arguments")])),
  ("decorator_parenthesized_expression", sequence ["(",
    oneOf [ref "identifier", named "member_expression" (ref "decorator_member_expression"),
      named "call_expression" (ref "decorator_call_expression")],
    ")"]),
  ("class_body", sequence [openBrace,
    many (oneOf [
      sequence [many (field "decorator" (ref "decorator")), ref "method_definition",
        optional (ref "_semicolon")],
      sequence [ref "method_signature",
        oneOf [ref "_function_signature_automatic_semicolon", ","]],
      ref "class_static_block",
      sequence [
        oneOf [ref "abstract_method_signature", ref "index_signature", ref "method_signature",
          ref "public_field_definition"],
        oneOf [ref "_semicolon", ","]],
      ";"]),
    closeBrace]),
  ("method_definition", left (sequence [modifiers, optional "async", accessor,
    field "name" (ref "_property_name"), optional "?", ref "_call_signature",
    field "body" (ref "statement_block")])),
  ("declaration", oneOf [base "declaration", ref "function_signature",
    ref "abstract_class_declaration", ref "module", binding "declare" (ref "internal_module"),
    ref "type_alias_declaration", ref "enum_declaration", ref "interface_declaration",
    ref "import_alias", ref "ambient_declaration"]),
  ("type_assertion", bindingLeft "unary" (sequence [ref "type_arguments", ref "expression"])),
  ("as_expression", bindingLeft "binary" (sequence [ref "expression", "as",
    oneOf ["const", ref "type"]])),
  ("satisfies_expression", bindingLeft "binary" (sequence [ref "expression", "satisfies",
    ref "type"])),
  ("instantiation_expression", binding "instantiation" (sequence [ref "expression",
    field "type_arguments" (ref "type_arguments")])),
  ("class_heritage", oneOf [sequence [ref "extends_clause", optional (ref "implements_clause")],
    ref "implements_clause"]),
  ("import_require_clause", sequence [ref "identifier", "=", "require", "(",
    field "source" (ref "string"), ")"]),
  ("extends_clause", sequence ["extends", commaSep1 (ref "_extends_clause_single")]),
  ("_extends_clause_single", binding "extends" (sequence [field "value" (ref "expression"),
    typeArguments])),
  ("implements_clause", sequence ["implements", commaSep1 (ref "type")]),
  ("ambient_declaration", sequence ["declare", oneOf [ref "declaration",
    sequence ["global", ref "statement_block"],
    sequence ["module", ".", named "property_identifier" (ref "identifier"), ":", ref "type",
      ref "_semicolon"]]]),
  ("class", binding "literal" (sequence [many (field "decorator" (ref "decorator")), "class",
    field "name" (optional (ref "_type_identifier")), typeParameters,
    optional (ref "class_heritage"), field "body" (ref "class_body")])),
  ("abstract_class_declaration", binding "declare" (sequence [
    many (field "decorator" (ref "decorator")), "abstract", "class",
    field "name" (ref "_type_identifier"), typeParameters, optional (ref "class_heritage"),
    field "body" (ref "class_body")])),
  ("class_declaration", bindingLeft "declare" (sequence [
    many (field "decorator" (ref "decorator")), "class", field "name" (ref "_type_identifier"),
    typeParameters, optional (ref "class_heritage"), field "body" (ref "class_body"),
    optional (ref "_automatic_semicolon")])),
  ("module", sequence ["module", ref "_module"]),
  ("internal_module", sequence ["namespace", ref "_module"]),
  ("_module", right (sequence [
    field "name" (oneOf [ref "string", ref "identifier", ref "nested_identifier"]),
    field "body" (optional (ref "statement_block"))])),
  ("import_alias", sequence ["import", ref "identifier", "=",
    oneOf [ref "identifier", ref "nested_identifier"], ref "_semicolon"]),
  ("nested_type_identifier", binding "member" (sequence [
    field "module" (oneOf [ref "identifier", ref "nested_identifier"]), ".",
    field "name" (ref "_type_identifier")])),
  ("interface_declaration", binding "declare" (sequence ["interface",
    field "name" (ref "_type_identifier"), typeParameters, optional (ref "extends_type_clause"),
    field "body" (named "interface_body" (ref "object_type"))])),
  ("extends_type_clause", sequence ["extends", commaSep1 (field "type" (oneOf [
    ref "_type_identifier", ref "nested_type_identifier", ref "generic_type"]))]),
  ("enum_declaration", sequence [optional "const", "enum", field "name" (ref "identifier"),
    field "body" (ref "enum_body")]),
  ("enum_body", sequence [openBrace,
    optional (sequence [
      commaSep1 (oneOf [field "name" (ref "_property_name"), ref "enum_assignment"]),
      optional ","]),
    closeBrace]),
  ("enum_assignment", sequence [field "name" (ref "_property_name"), ref "_initializer"]),
  ("type_alias_declaration", sequence ["type", field "name" (ref "_type_identifier"),
    typeParameters, "=", field "value" (ref "type"), ref "_semicolon"]),
  ("accessibility_modifier", oneOf ["public", "private", "protected"]),
  ("override_modifier", literal "override"),
  ("required_parameter", sequence [ref "_parameter_name", typeAnnotation,
    optional (ref "_initializer")]),
  ("optional_parameter", sequence [ref "_parameter_name", "?", typeAnnotation,
    optional (ref "_initializer")]),
  ("_parameter_name", sequence [many (field "decorator" (ref "decorator")),
    optional (ref "accessibility_modifier"), optional (ref "override_modifier"),
    optional "readonly", field "pattern" (oneOf [ref "pattern", ref "this"])]),
  ("omitting_type_annotation", sequence ["-?:", ref "type"]),
  ("adding_type_annotation", sequence ["+?:", ref "type"]),
  ("opting_type_annotation", sequence ["?:", ref "type"]),
  ("type_annotation", sequence [":", oneOf [ref "type", annotationMember, annotationCall]]),
  ("_type_query_member_expression_in_type_annotation", sequence [
    field "object" (oneOf [ref "import", annotationMember, annotationCall]), ".", property]),
  ("_type_query_call_expression_in_type_annotation", sequence [
    field "function" (oneOf [ref "import", annotationMember]),
    field "arguments" (ref "arguments")]),
  ("asserts", sequence ["asserts", oneOf [ref "type_predicate", ref "identifier", ref "this"]]),
  ("asserts_annotation", sequence [":", ref "asserts"]),
  ("type", oneOf [ref "primary_type", ref "function_type", ref "readonly_type",
    ref "constructor_type", ref "infer_type", prec (.level (-1)) none annotationMember,
    prec (.level (-1)) none annotationCall]),
  ("tuple_parameter", sequence [field "name" (oneOf [ref "identifier", ref "rest_pattern"]),
    field "type" (ref "type_annotation")]),
  ("optional_tuple_parameter", sequence [field "name" (ref "identifier"), "?",
    field "type" (ref "type_annotation")]),
  ("optional_type", sequence [ref "type", "?"]),
  ("rest_type", sequence ["...", ref "type"]),
  ("_tuple_type_member", oneOf [named "required_parameter" (ref "tuple_parameter"),
    named "optional_parameter" (ref "optional_tuple_parameter"), ref "optional_type",
    ref "rest_type", ref "type"]),
  ("constructor_type", left (sequence [optional "abstract", "new", typeParameters,
    field "parameters" (ref "formal_parameters"), "=>", field "type" (ref "type")])),
  ("primary_type", oneOf [ref "parenthesized_type", ref "predefined_type",
    ref "_type_identifier", ref "nested_type_identifier", ref "generic_type", ref "object_type",
    ref "array_type", ref "tuple_type", ref "flow_maybe_type", ref "type_query",
    ref "index_type_query", named "this_type" (ref "this"), ref "existential_type",
    ref "literal_type", ref "lookup_type", ref "conditional_type", ref "template_literal_type",
    ref "intersection_type", ref "union_type", "const"]),
  ("template_type", sequence ["$\x7b", oneOf [ref "primary_type", ref "infer_type"], closeBrace]),
  ("template_literal_type", sequence ["\x60",
    many (oneOf [named "string_fragment" (ref "_template_chars"), ref "template_type"]),
    "\x60"]),
  ("infer_type", right (sequence ["infer", ref "_type_identifier",
    optional (sequence ["extends", ref "type"])])),
  ("conditional_type", right (sequence [field "left" (ref "type"), "extends",
    field "right" (ref "type"), "?", field "consequence" (ref "type"), ":",
    field "alternative" (ref "type")])),
  ("generic_type", binding "call" (sequence [
    field "name" (oneOf [ref "_type_identifier", ref "nested_type_identifier"]),
    field "type_arguments" (ref "type_arguments")])),
  ("type_predicate", sequence [
    field "name" (oneOf [ref "identifier", ref "this",
      named "identifier" (ref "predefined_type")]),
    "is", field "type" (ref "type")]),
  ("type_predicate_annotation", sequence [":", ref "type_predicate"]),
  ("_type_query_member_expression", sequence [
    field "object" (oneOf [ref "identifier", ref "this", querySubscript, queryMember, queryCall]),
    oneOf [".", "?."], property]),
  ("_type_query_subscript_expression", sequence [
    field "object" (oneOf [ref "identifier", ref "this", querySubscript, queryMember, queryCall]),
    optional "?.", "[",
    field "index" (oneOf [ref "predefined_type", ref "string", ref "number"]), "]"]),
  ("_type_query_call_expression", sequence [
    field "function" (oneOf [ref "import", ref "identifier", queryMember, querySubscript]),
    field "arguments" (ref "arguments")]),
  ("_type_query_instantiation_expression", sequence [
    field "function" (oneOf [ref "import", ref "identifier", queryMember, querySubscript]),
    field "type_arguments" (ref "type_arguments")]),
  ("type_query", right (sequence ["typeof", oneOf [querySubscript, queryMember, queryCall,
    named "instantiation_expression" (ref "_type_query_instantiation_expression"),
    ref "identifier", ref "this"]])),
  ("index_type_query", sequence ["keyof", ref "primary_type"]),
  ("lookup_type", sequence [ref "primary_type", "[", ref "type", "]"]),
  ("mapped_type_clause", sequence [field "name" (ref "_type_identifier"), "in",
    field "type" (ref "type"), optional (sequence ["as", field "alias" (ref "type")])]),
  ("literal_type", oneOf [named "unary_expression" (ref "_number"), ref "number", ref "string",
    ref "true", ref "false", ref "null", ref "undefined"]),
  ("_number", prec (.level 1) (some .left) (sequence [field "operator" (oneOf ["-", "+"]),
    field "argument" (ref "number")])),
  ("existential_type", literal "*"),
  ("flow_maybe_type", right (sequence ["?", ref "primary_type"])),
  ("parenthesized_type", sequence ["(", ref "type", ")"]),
  ("predefined_type", oneOf ["any", "number", "boolean", "string", "symbol",
    aliased ⟨"unique symbol", false⟩ (sequence ["unique", "symbol"]), "void", "unknown", "never",
    "object"]),
  ("type_arguments", sequence ["<", commaSep1 (ref "type"), optional ",", ">"]),
  ("object_type", sequence [oneOf [openBrace, "\x7b|"],
    optional (sequence [optional (oneOf [",", ";"]),
      sepBy1 (oneOf [",", ref "_semicolon"])
        (oneOf [ref "export_statement", ref "property_signature", ref "call_signature",
          ref "construct_signature", ref "index_signature", ref "method_signature"]),
      optional (oneOf [",", ref "_semicolon"])]),
    oneOf [closeBrace, "|\x7d"]]),
  ("call_signature", ref "_call_signature"),
  ("property_signature", sequence [modifiers, field "name" (ref "_property_name"), optional "?",
    typeAnnotation]),
  ("_call_signature", sequence [typeParameters, field "parameters" (ref "formal_parameters"),
    field "return_type" (optional (oneOf [ref "type_annotation", ref "asserts_annotation",
      ref "type_predicate_annotation"]))]),
  ("type_parameters", sequence ["<", commaSep1 (ref "type_parameter"), optional ",", ">"]),
  ("type_parameter", sequence [optional "const", field "name" (ref "_type_identifier"),
    field "constraint" (optional (ref "constraint")),
    field "value" (optional (ref "default_type"))]),
  ("default_type", sequence ["=", ref "type"]),
  ("constraint", sequence [oneOf ["extends", ":"], ref "type"]),
  ("construct_signature", sequence [optional "abstract", "new", typeParameters,
    field "parameters" (ref "formal_parameters"), typeAnnotation]),
  ("index_signature", sequence [
    optional (sequence [field "sign" (optional (oneOf ["-", "+"])), "readonly"]), "[",
    oneOf [
      sequence [field "name" (oneOf [ref "identifier",
          named "identifier" (ref "_reserved_identifier")]),
        ":", field "index_type" (ref "type")],
      ref "mapped_type_clause"],
    "]",
    field "type" (oneOf [ref "type_annotation", ref "omitting_type_annotation",
      ref "adding_type_annotation", ref "opting_type_annotation"])]),
  ("array_type", sequence [ref "primary_type", "[", "]"]),
  ("tuple_type", sequence ["[", commaSep (ref "_tuple_type_member"), optional ",", "]"]),
  ("readonly_type", sequence ["readonly", ref "type"]),
  ("union_type", left (sequence [optional (ref "type"), "|", ref "type"])),
  ("intersection_type", left (sequence [optional (ref "type"), "&", ref "type"])),
  ("function_type", left (sequence [typeParameters,
    field "parameters" (ref "formal_parameters"), "=>",
    field "return_type" (oneOf [ref "type", ref "asserts", ref "type_predicate"])])),
  ("_type_identifier", named "type_identifier" (ref "identifier")),
  ("_reserved_identifier", oneOf ["declare", "namespace", "type", "public", "private",
    "protected", "override", "readonly", "module", "any", "number", "boolean", "string", "symbol",
    "export", "object", "new", base "_reserved_identifier"])]

/-- The precedence groups that types add. -/
def typeOrders : List (List Rank) := [
  [.name "call", .name "instantiation", .name "unary", .name "binary", .rule "await_expression",
    .rule "arrow_function"],
  [.name "extends", .name "instantiation"],
  [.rule "intersection_type", .rule "union_type", .rule "conditional_type", .rule "function_type",
    .name "binary", .rule "type_predicate", .rule "readonly_type"],
  [.rule "mapped_type_clause", .rule "primary_expression"],
  [.rule "accessibility_modifier", .rule "primary_expression"],
  [.name "unary_void", .rule "expression"],
  [.rule "extends_clause", .rule "primary_expression"],
  [.name "unary", .name "assign"],
  [.name "declare", .rule "expression"],
  [.rule "predefined_type", .rule "unary_expression"],
  [.rule "type", .rule "flow_maybe_type"],
  [.rule "tuple_type", .rule "array_type", .rule "pattern", .rule "type"],
  [.rule "readonly_type", .rule "pattern"],
  [.rule "readonly_type", .rule "primary_expression"],
  [.rule "type_query", .rule "subscript_expression", .rule "expression"],
  [.rule "type_query", .rule "_type_query_subscript_expression"],
  [.rule "nested_type_identifier", .rule "generic_type", .rule "primary_type",
    .rule "lookup_type", .rule "index_type_query", .rule "type"],
  [.rule "as_expression", .rule "satisfies_expression", .rule "primary_type"],
  [.rule "_type_query_member_expression", .rule "member_expression"],
  [.rule "member_expression", .rule "_type_query_member_expression_in_type_annotation"],
  [.rule "_type_query_member_expression", .rule "primary_expression"],
  [.rule "_type_query_subscript_expression", .rule "subscript_expression"],
  [.rule "_type_query_subscript_expression", .rule "primary_expression"],
  [.rule "_type_query_call_expression", .rule "primary_expression"],
  [.rule "_type_query_instantiation_expression", .rule "primary_expression"],
  [.rule "type_query", .rule "primary_expression"],
  [.rule "override_modifier", .rule "primary_expression"],
  [.rule "decorator_call_expression", .rule "decorator"],
  [.rule "literal_type", .rule "pattern"],
  [.rule "predefined_type", .rule "pattern"],
  [.rule "call_expression", .rule "_type_query_call_expression"],
  [.rule "call_expression", .rule "_type_query_call_expression_in_type_annotation"],
  [.rule "new_expression", .rule "primary_expression"],
  [.rule "meta_property", .rule "primary_expression"],
  [.rule "construct_signature", .rule "_property_name"]]

def specification (jsx : Bool) : Specification where
  rules := Specification.override baseRules (changes jsx)
  externals := JavaScript.externals ++ ["_function_signature_automatic_semicolon", "__error_recovery"]
  extras := ["comment", "html_comment"]
  blanks := blanks
  word := "identifier"
  reserved := []
  supertypes := JavaScript.supertypes ++ ["type", "primary_type"]
  inlined := JavaScript.inlined.filter (fun n => !(["_call_signature", "_formal_parameter"].contains n)) ++
    ["_type_identifier", "_jsx_start_opening_element"]
  orders := JavaScript.orders ++ typeOrders
  uncertain := JavaScript.uncertain ++ ["?:"]

end FunctionInventory.TypeScript
