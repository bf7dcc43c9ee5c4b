import FunctionInventory.Parsing.Rule

/-!
# The grammar of JavaScript

The rules of JavaScript with JSX. The rules shared with TypeScript are `baseRules`.
-/
namespace FunctionInventory.JavaScript

open Rule

/-- The opening and the closing brace, as tokens. -/
def openBrace : String := "\x7b"

def closeBrace : String := "\x7d"

/-- Blank units: they separate tokens and end no statement. -/
def blanks : CharSet :=
  ⟨[(9, 13), (32, 32), (0xa0, 0xa0), (0x1680, 0x1680), (0x2000, 0x200b), (0x2028, 0x2029),
    (0x202f, 0x202f), (0x205f, 0x2060), (0x3000, 0x3000), (0xfeff, 0xfeff)], false⟩

private def set (s : CharSet) : Pattern := .unit s

private def word (s : String) : Pattern := .ofString s

/-- Units a name can start with: letters, the dollar sign, the underscore and
everything outside ASCII that is not blank. -/
def nameStart : CharSet :=
  ⟨[(0x24, 0x24), (0x41, 0x5a), (0x5f, 0x5f), (0x61, 0x7a), (0x7f, 0x9f), (0xa1, 0x167f),
    (0x1681, 0x1fff), (0x200c, 0x2027), (0x202a, 0x202e), (0x2030, 0x205e), (0x2061, 0x2fff),
    (0x3001, 0xfefe), (0xff00, 0x10ffff)], false⟩

/-- An escaped unit inside a name. -/
def nameEscape : Pattern :=
  .alt (.seq (word "\\u") (.times (set .hexDigit) 4 0))
    (.seqAll [word "\\u\x7b", .plus (set .hexDigit), word "\x7d"])

def namePattern : Pattern :=
  .seq (.alt (set nameStart) nameEscape) (.star (.alt (set (nameStart ++ .digit)) nameEscape))

def commentPattern : Pattern :=
  .alt (.seq (word "//") (.star (set (CharSet.of "\r\n\u2028\u2029").compl)))
    (.seqAll [word "/*", .star (set (CharSet.of "*").compl), .plus (word "*"),
      .star (.seqAll [set (CharSet.of "/*").compl, .star (set (CharSet.of "*").compl),
        .plus (word "*")]),
      word "/"])

/-- Digits with single underscores between them. -/
private def digitRun (d : CharSet) : Pattern := .seq (set d) (.star (.seq (.opt (word "_")) (set d)))

def numberPattern : Pattern :=
  let hex := .seq (.alt (word "0x") (word "0X")) (digitRun .hexDigit)
  let binary := .seq (.alt (word "0b") (word "0B")) (digitRun (.range '0' '1'))
  let octal := .seq (.alt (word "0o") (word "0O")) (digitRun .octalDigit)
  let digits := digitRun .digit
  let exponent := .seqAll [set (.of "eE"), .opt (set (.of "-+")), digits]
  let integer := .alt (word "0")
    (.seqAll [.opt (word "0"), set (.range '1' '9'), .opt (.seq (.opt (word "_")) digits)])
  .altAll [
    hex,
    .seqAll [integer, word ".", .opt digits, .opt exponent],
    .seqAll [word ".", digits, .opt exponent],
    .seq integer exponent,
    digits,
    binary,
    octal,
    .seq (.altAll [hex, binary, octal, digits]) (word "n")]

def escapePattern : Pattern :=
  .seq (word "\\") (.altAll [
    set (CharSet.of "xu" ++ .octalDigit).compl,
    .times (set .octalDigit) 1 2,
    .seq (word "x") (.times (set .hexDigit) 2 0),
    .seq (word "u") (.times (set .hexDigit) 4 0),
    .seqAll [word "u\x7b", .plus (set .hexDigit), word "\x7d"],
    .seq (set (.of "\r?")) (set (.of "\n\u2028\u2029"))])

def regexPattern : Pattern :=
  let escaped := .seq (word "\\") (set (CharSet.of "\n").compl)
  .plus (.altAll [
    .seqAll [word "[", .star (.alt escaped (set (CharSet.of "]\n\\").compl)), word "]"],
    escaped,
    set (CharSet.of "/\\[\n").compl])

def hyphenatedPattern : Pattern :=
  let start := CharSet.asciiLetter ++ .of "_$"
  .seqAll [set start, .star (set (start ++ .digit)), word "-", .star (set (start ++ .digit ++ .of "-"))]

def entityPattern : Pattern :=
  .seqAll [word "&", .alt
      (.seq (word "#") (.alt (.seq (set (.of "xX")) (.times (set .hexDigit) 1 5)) (.times (set .digit) 1 4)))
      (.times (set .asciiLetter) 1 29),
    .opt (word ";")]

/-- Text of a quoted attribute: anything but the quote and character references. -/
def attributeTextPattern (quote : String) : Pattern :=
  .plus (.alt (set (CharSet.of quote ++ .of "&").compl)
    (.seq (word "&") (set (CharSet.of "#" ++ .asciiLetter).compl)))

/-- The words that open a static getter whose name stands on a later line. -/
def staticGetterPattern : Pattern :=
  let blank := set (.of " \t\r\n\x0b\x0c")
  .seqAll [word "static", .plus blank, word "get", .star blank, word "\n"]

private def pattern (p : Pattern) : Rule := token { pattern := p }

private def immediate (priority : Int) (p : Pattern) : Rule :=
  token { pattern := p, priority, immediate := true }

/-- A binary operator with its precedence. -/
def binary (operator precedence : String) : Rule :=
  let operand := ref "expression"
  let lhs := if operator == "in" then oneOf [operand, ref "private_property_identifier"] else operand
  let body := sequence [field "left" lhs, field "operator" operator, field "right" operand]
  if operator == "**" then bindingRight precedence body else bindingLeft precedence body

/-- Names that are keywords elsewhere, shown as `kind`. -/
def nameAs (kind : String) : Rule := named kind (oneOf [ref "identifier", ref "_reserved_identifier"])

def baseRules : List (String × Rule) := [
  ("program", sequence [optional (ref "hash_bang_line"), many (ref "statement")]),
  ("hash_bang_line", pattern (.seq (word "#!") (.star (set (CharSet.of "\n").compl)))),
  ("export_statement", oneOf [
    sequence ["export",
      oneOf [
        sequence ["*", ref "_from_clause"],
        sequence [ref "namespace_export", ref "_from_clause"],
        sequence [ref "export_clause", ref "_from_clause"],
        ref "export_clause"],
      ref "_semicolon"],
    sequence [many (field "decorator" (ref "decorator")), "export",
      oneOf [
        field "declaration" (ref "declaration"),
        sequence ["default", oneOf [
          field "declaration" (ref "declaration"),
          sequence [field "value" (ref "expression"), ref "_semicolon"]]]]]]),
  ("namespace_export", sequence ["*", "as", ref "_module_export_name"]),
  ("export_clause", sequence [openBrace, commaSep (ref "export_specifier"), optional ",", closeBrace]),
  ("export_specifier", sequence [field "name" (ref "_module_export_name"),
    optional (sequence ["as", field "alias" (ref "_module_export_name")])]),
  ("_module_export_name", oneOf [ref "identifier", ref "string", "default"]),
  ("declaration", oneOf [ref "function_declaration", ref "generator_function_declaration",
    ref "class_declaration", ref "lexical_declaration", ref "variable_declaration"]),
  ("import", literal "import"),
  ("import_statement", sequence ["import",
    oneOf [sequence [ref "import_clause", ref "_from_clause"], field "source" (ref "string")],
    optional (ref "import_attribute"), ref "_semicolon"]),
  ("import_clause", oneOf [ref "namespace_import", ref "named_imports",
    sequence [ref "identifier",
      optional (sequence [",", oneOf [ref "namespace_import", ref "named_imports"]])]]),
  ("_from_clause", sequence ["from", field "source" (ref "string")]),
  ("namespace_import", sequence ["*", "as", ref "identifier"]),
  ("named_imports", sequence [openBrace, commaSep (ref "import_specifier"), optional ",", closeBrace]),
  ("import_specifier", oneOf [
    field "name" (ref "identifier"),
    sequence [field "name" (ref "_module_export_name"), "as", field "alias" (ref "identifier")]]),
  ("import_attribute", sequence ["with", ref "object"]),
  ("statement", oneOf [ref "export_statement", ref "import_statement", ref "debugger_statement",
    ref "expression_statement", ref "declaration", ref "statement_block", ref "if_statement",
    ref "switch_statement", ref "for_statement", ref "for_in_statement", ref "while_statement",
    ref "do_statement", ref "try_statement", ref "with_statement", ref "break_statement",
    ref "continue_statement", ref "return_statement", ref "throw_statement", ref "empty_statement",
    ref "labeled_statement"]),
  ("expression_statement", sequence [ref "_expressions", ref "_semicolon"]),
  ("variable_declaration", sequence ["var", commaSep1 (ref "variable_declarator"), ref "_semicolon"]),
  ("lexical_declaration", sequence [field "kind" (oneOf ["let", "const"]),
    commaSep1 (ref "variable_declarator"), ref "_semicolon"]),
  ("variable_declarator", sequence [
    field "name" (oneOf [ref "identifier", ref "_destructuring_pattern"]),
    optional (ref "_initializer")]),
  ("statement_block", right (sequence [openBrace, many (ref "statement"), closeBrace,
    optional (ref "_automatic_semicolon")])),
  ("else_clause", sequence ["else", ref "statement"]),
  ("if_statement", right (sequence ["if", field "condition" (ref "parenthesized_expression"),
    field "consequence" (ref "statement"), optional (field "alternative" (ref "else_clause"))])),
  ("switch_statement", sequence ["switch", field "value" (ref "parenthesized_expression"),
    field "body" (ref "switch_body")]),
  ("for_statement", sequence ["for", "(",
    oneOf [
      field "initializer" (oneOf [ref "lexical_declaration", ref "variable_declaration"]),
      sequence [field "initializer" (ref "_expressions"), ";"],
      field "initializer" (ref "empty_statement")],
    field "condition" (oneOf [sequence [ref "_expressions", ";"], ref "empty_statement"]),
    field "increment" (optional (ref "_expressions")), ")", field "body" (ref "statement")]),
  ("for_in_statement", sequence ["for", optional "await", ref "_for_header",
    field "body" (ref "statement")]),
  ("_for_header", sequence ["(",
    oneOf [
      field "left" (oneOf [ref "_lhs_expression", ref "parenthesized_expression"]),
      sequence [field "kind" "var",
        field "left" (oneOf [ref "identifier", ref "_destructuring_pattern"]),
        optional (ref "_initializer")],
      sequence [field "kind" (oneOf ["let", "const"]),
        field "left" (oneOf [ref "identifier", ref "_destructuring_pattern"]),
        optional (ref "_automatic_semicolon")]],
    field "operator" (oneOf ["in", "of"]), field "right" (ref "_expressions"), ")"]),
  ("while_statement", sequence ["while", field "condition" (ref "parenthesized_expression"),
    field "body" (ref "statement")]),
  ("do_statement", right (sequence ["do", field "body" (ref "statement"), "while",
    field "condition" (ref "parenthesized_expression"), optional (ref "_semicolon")])),
  ("try_statement", sequence ["try", field "body" (ref "statement_block"),
    optional (field "handler" (ref "catch_clause")),
    optional (field "finalizer" (ref "finally_clause"))]),
  ("with_statement", sequence ["with", field "object" (ref "parenthesized_expression"),
    field "body" (ref "statement")]),
  ("break_statement", sequence ["break",
    field "label" (optional (named "statement_identifier" (ref "identifier"))), ref "_semicolon"]),
  ("continue_statement", sequence ["continue",
    field "label" (optional (named "statement_identifier" (ref "identifier"))), ref "_semicolon"]),
  ("debugger_statement", sequence ["debugger", ref "_semicolon"]),
  ("return_statement", sequence ["return", optional (ref "_expressions"), ref "_semicolon"]),
  ("throw_statement", sequence ["throw", ref "_expressions", ref "_semicolon"]),
  ("empty_statement", literal ";"),
  ("labeled_statement", dynamic (-1) (sequence [field "label" (nameAs "statement_identifier"), ":",
    field "body" (ref "statement")])),
  ("switch_body", sequence [openBrace, many (oneOf [ref "switch_case", ref "switch_default"]),
    closeBrace]),
  ("switch_case", sequence ["case", field "value" (ref "_expressions"), ":",
    field "body" (many (ref "statement"))]),
  ("switch_default", sequence ["default", ":", field "body" (many (ref "statement"))]),
  ("catch_clause", sequence ["catch",
    optional (sequence ["(",
      field "parameter" (oneOf [ref "identifier", ref "_destructuring_pattern"]), ")"]),
    field "body" (ref "statement_block")]),
  ("finally_clause", sequence ["finally", field "body" (ref "statement_block")]),
  ("parenthesized_expression", sequence ["(", ref "_expressions", ")"]),
  ("_expressions", oneOf [ref "expression", ref "sequence_expression"]),
  ("expression", oneOf [ref "primary_expression", ref "_jsx_element", ref "assignment_expression",
    ref "augmented_assignment_expression", ref "await_expression", ref "unary_expression",
    ref "binary_expression", ref "ternary_expression", ref "update_expression",
    ref "new_expression", ref "yield_expression"]),
  ("primary_expression", oneOf [ref "subscript_expression", ref "member_expression",
    ref "parenthesized_expression", ref "_identifier",
    named "identifier" (ref "_reserved_identifier"), ref "this", ref "super", ref "number",
    ref "string", ref "template_string", ref "regex", ref "true", ref "false", ref "null",
    ref "object", ref "array", ref "function_expression", ref "arrow_function",
    ref "generator_function", ref "class", ref "meta_property", ref "call_expression"]),
  ("yield_expression", right (sequence ["yield",
    oneOf [sequence ["*", ref "expression"], optional (ref "expression")]])),
  ("object", binding "object" (sequence [openBrace,
    commaSep (optional (oneOf [ref "pair", ref "spread_element", ref "method_definition",
      nameAs "shorthand_property_identifier"])),
    closeBrace])),
  ("object_pattern", binding "object" (sequence [openBrace,
    commaSep (optional (oneOf [ref "pair_pattern", ref "rest_pattern",
      ref "object_assignment_pattern", nameAs "shorthand_property_identifier_pattern"])),
    closeBrace])),
  ("assignment_pattern", sequence [field "left" (ref "pattern"), "=",
    field "right" (ref "expression")]),
  ("object_assignment_pattern", sequence [
    field "left" (oneOf [
      named "shorthand_property_identifier_pattern"
        (oneOf [ref "_reserved_identifier", ref "identifier"]),
      ref "_destructuring_pattern"]),
    "=", field "right" (ref "expression")]),
  ("array", sequence ["[", commaSep (optional (oneOf [ref "expression", ref "spread_element"])),
    "]"]),
  ("array_pattern", sequence ["[",
    commaSep (optional (oneOf [ref "pattern", ref "assignment_pattern"])), "]"]),
  ("nested_identifier", binding "member" (sequence [
    field "object" (oneOf [ref "identifier",
      named "member_expression" (ref "nested_identifier")]),
    ".", field "property" (named "property_identifier" (ref "identifier"))])),
  ("class", binding "literal" (sequence [many (field "decorator" (ref "decorator")), "class",
    field "name" (optional (ref "identifier")), optional (ref "class_heritage"),
    field "body" (ref "class_body")])),
  ("class_declaration", binding "declare" (sequence [many (field "decorator" (ref "decorator")),
    "class", field "name" (ref "identifier"), optional (ref "class_heritage"),
    field "body" (ref "class_body"), optional (ref "_automatic_semicolon")])),
  ("class_heritage", sequence ["extends", ref "expression"]),
  ("jsx_expression", sequence [openBrace,
    optional (oneOf [ref "expression", ref "sequence_expression", ref "spread_element"]),
    closeBrace]),
  ("_jsx_child", oneOf [ref "jsx_text", ref "html_character_reference", ref "_jsx_element",
    ref "jsx_expression"]),
  ("jsx_element", sequence [field "open_tag" (ref "jsx_opening_element"), many (ref "_jsx_child"),
    field "close_tag" (ref "jsx_closing_element")]),
  ("html_character_reference", pattern entityPattern),
  ("_jsx_element", oneOf [ref "jsx_element", ref "jsx_self_closing_element"]),
  ("jsx_identifier", pattern hyphenatedPattern),
  ("_jsx_identifier", oneOf [named "identifier" (ref "jsx_identifier"), ref "identifier"]),
  ("jsx_namespace_name", sequence [ref "_jsx_identifier", ":", ref "_jsx_identifier"]),
  ("_jsx_element_name", oneOf [ref "_jsx_identifier",
    named "member_expression" (ref "nested_identifier"), ref "jsx_namespace_name"]),
  ("jsx_opening_element", dynamic (-1) (sequence ["<",
    optional (sequence [field "name" (ref "_jsx_element_name"),
      many (field "attribute" (ref "_jsx_attribute"))]),
    ">"])),
  ("jsx_closing_element", sequence ["</", optional (field "name" (ref "_jsx_element_name")), ">"]),
  ("jsx_self_closing_element", sequence ["<", field "name" (ref "_jsx_element_name"),
    many (field "attribute" (ref "_jsx_attribute")), "/>"]),
  ("_jsx_attribute", oneOf [ref "jsx_attribute", ref "jsx_expression"]),
  ("_jsx_attribute_name", oneOf [named "property_identifier" (ref "_jsx_identifier"),
    ref "jsx_namespace_name"]),
  ("jsx_attribute", sequence [ref "_jsx_attribute_name",
    optional (sequence ["=", ref "_jsx_attribute_value"])]),
  ("_jsx_string", oneOf [
    sequence ["\x22",
      many (oneOf [named "string_fragment" (ref "unescaped_double_jsx_string_fragment"),
        ref "html_character_reference"]),
      "\x22"],
    sequence ["\x27",
      many (oneOf [named "string_fragment" (ref "unescaped_single_jsx_string_fragment"),
        ref "html_character_reference"]),
      "\x27"]]),
  ("unescaped_double_jsx_string_fragment", immediate 1 (attributeTextPattern "\x22")),
  ("unescaped_single_jsx_string_fragment", immediate 1 (attributeTextPattern "\x27")),
  ("_jsx_attribute_value", oneOf [named "string" (ref "_jsx_string"), ref "jsx_expression",
    ref "_jsx_element"]),
  ("function_expression", binding "literal" (sequence [optional "async", "function",
    field "name" (optional (ref "identifier")), ref "_call_signature",
    field "body" (ref "statement_block")])),
  ("function_declaration", bindingRight "declare" (sequence [optional "async", "function",
    field "name" (ref "identifier"), ref "_call_signature", field "body" (ref "statement_block"),
    optional (ref "_automatic_semicolon")])),
  ("generator_function", binding "literal" (sequence [optional "async", "function", "*",
    field "name" (optional (ref "identifier")), ref "_call_signature",
    field "body" (ref "statement_block")])),
  ("generator_function_declaration", bindingRight "declare" (sequence [optional "async",
    "function", "*", field "name" (ref "identifier"), ref "_call_signature",
    field "body" (ref "statement_block"), optional (ref "_automatic_semicolon")])),
  ("arrow_function", sequence [optional "async",
    oneOf [
      field "parameter" (oneOf [named "identifier" (ref "_reserved_identifier"),
        ref "identifier"]),
      ref "_call_signature"],
    "=>", field "body" (oneOf [ref "expression", ref "statement_block"])]),
  ("_call_signature", field "parameters" (ref "formal_parameters")),
  ("_formal_parameter", oneOf [ref "pattern", ref "assignment_pattern"]),
  ("optional_chain", literal "?."),
  ("call_expression", oneOf [
    binding "call" (sequence [field "function" (oneOf [ref "expression", ref "import"]),
      field "arguments" (ref "arguments")]),
    binding "template_call" (sequence [
      field "function" (oneOf [ref "primary_expression", ref "new_expression"]),
      field "arguments" (ref "template_string")]),
    binding "member" (sequence [field "function" (ref "primary_expression"),
      field "optional_chain" (ref "optional_chain"), field "arguments" (ref "arguments")])]),
  ("new_expression", bindingRight "new" (sequence ["new",
    field "constructor" (oneOf [ref "primary_expression", ref "new_expression"]),
    field "arguments" (optional (dynamic 1 (ref "arguments")))])),
  ("await_expression", binding "unary_void" (sequence ["await", ref "expression"])),
  ("member_expression", binding "member" (sequence [
    field "object" (oneOf [ref "expression", ref "primary_expression", ref "import"]),
    oneOf [".", field "optional_chain" (ref "optional_chain")],
    field "property" (oneOf [ref "private_property_identifier",
      freeWords (named "property_identifier" (ref "identifier"))])])),
  ("subscript_expression", bindingRight "member" (sequence [
    field "object" (oneOf [ref "expression", ref "primary_expression"]),
    optional (field "optional_chain" (ref "optional_chain")),
    "[", field "index" (ref "_expressions"), "]"])),
  ("_lhs_expression", oneOf [ref "member_expression", ref "subscript_expression",
    ref "_identifier", named "identifier" (ref "_reserved_identifier"),
    ref "_destructuring_pattern"]),
  ("assignment_expression", bindingRight "assign" (sequence [optional "using",
    field "left" (oneOf [ref "parenthesized_expression", ref "_lhs_expression"]), "=",
    field "right" (ref "expression")])),
  ("_augmented_assignment_lhs", oneOf [ref "member_expression", ref "subscript_expression",
    named "identifier" (ref "_reserved_identifier"), ref "identifier",
    ref "parenthesized_expression"]),
  ("augmented_assignment_expression", bindingRight "assign" (sequence [
    field "left" (ref "_augmented_assignment_lhs"),
    field "operator" (oneOf ["+=", "-=", "*=", "/=", "%=", "^=", "&=", "|=", ">>=", ">>>=", "<<=",
      "**=", "&&=", "||=", "??="]),
    field "right" (ref "expression")])),
  ("_initializer", sequence ["=", field "value" (ref "expression")]),
  ("_destructuring_pattern", oneOf [ref "object_pattern", ref "array_pattern"]),
  ("spread_element", sequence ["...", ref "expression"]),
  ("ternary_expression", bindingRight "ternary" (sequence [
    field "condition" (ref "expression"), aliased ⟨"?", false⟩ (ref "_ternary_qmark"),
    field "consequence" (ref "expression"), ":", field "alternative" (ref "expression")])),
  ("binary_expression", oneOf [binary "&&" "logical_and", binary "||" "logical_or",
    binary ">>" "binary_shift", binary ">>>" "binary_shift", binary "<<" "binary_shift",
    binary "&" "bitwise_and", binary "^" "bitwise_xor", binary "|" "bitwise_or",
    binary "+" "binary_plus", binary "-" "binary_plus", binary "*" "binary_times",
    binary "/" "binary_times", binary "%" "binary_times", binary "**" "binary_exp",
    binary "<" "binary_relation", binary "<=" "binary_relation", binary "==" "binary_equality",
    binary "===" "binary_equality", binary "!=" "binary_equality", binary "!==" "binary_equality",
    binary ">=" "binary_relation", binary ">" "binary_relation", binary "??" "ternary",
    binary "instanceof" "binary_relation", binary "in" "binary_relation"]),
  ("unary_expression", bindingLeft "unary_void" (sequence [
    field "operator" (oneOf ["!", "~", "-", "+", "typeof", "void", "delete"]),
    field "argument" (ref "expression")])),
  ("update_expression", left (oneOf [
    sequence [field "argument" (ref "expression"), field "operator" (oneOf ["++", "--"])],
    sequence [field "operator" (oneOf ["++", "--"]), field "argument" (ref "expression")]])),
  ("sequence_expression", right (commaSep1 (ref "expression"))),
  ("string", oneOf [
    sequence ["\x22",
      many (oneOf [named "string_fragment" (ref "unescaped_double_string_fragment"),
        ref "escape_sequence"]),
      "\x22"],
    sequence ["\x27",
      many (oneOf [named "string_fragment" (ref "unescaped_single_string_fragment"),
        ref "escape_sequence"]),
      "\x27"]]),
  ("unescaped_double_string_fragment",
    immediate 1 (.plus (set (CharSet.of "\x22\\\r\n").compl))),
  ("unescaped_single_string_fragment",
    immediate 1 (.plus (set (CharSet.of "\x27\\\r\n").compl))),
  ("escape_sequence", immediate 0 escapePattern),
  ("comment", pattern commentPattern),
  ("template_string", sequence ["\x60",
    many (oneOf [named "string_fragment" (ref "_template_chars"), ref "escape_sequence",
      ref "template_substitution"]),
    "\x60"]),
  ("template_substitution", sequence ["$\x7b", ref "_expressions", closeBrace]),
  ("regex", sequence ["/", field "pattern" (ref "regex_pattern"),
    token { Lexeme.ofLiteral "/" with priority := 1, immediate := true },
    optional (field "flags" (ref "regex_flags"))]),
  ("regex_pattern", immediate (-1) regexPattern),
  ("regex_flags", immediate 0 (.plus (set (.range 'a' 'z')))),
  ("number", pattern numberPattern),
  ("_identifier", oneOf [ref "undefined", ref "identifier"]),
  ("identifier", pattern namePattern),
  ("private_property_identifier", pattern (.seq (word "#") namePattern)),
  ("meta_property", oneOf [sequence ["new", ".", "target"], sequence ["import", ".", "meta"]]),
  ("this", literal "this"),
  ("super", literal "super"),
  ("true", literal "true"),
  ("false", literal "false"),
  ("null", literal "null"),
  ("undefined", literal "undefined"),
  ("arguments", sequence ["(",
    commaSep (optional (oneOf [ref "expression", ref "spread_element"])), ")"]),
  ("decorator", sequence ["@", oneOf [ref "identifier",
    named "member_expression" (ref "decorator_member_expression"),
    named "call_expression" (ref "decorator_call_expression")]]),
  ("decorator_member_expression", binding "member" (sequence [
    field "object" (oneOf [ref "identifier",
      named "member_expression" (ref "decorator_member_expression")]),
    ".", field "property" (named "property_identifier" (ref "identifier"))])),
  ("decorator_call_expression", binding "call" (sequence [
    field "function" (oneOf [ref "identifier",
      named "member_expression" (ref "decorator_member_expression")]),
    field "arguments" (ref "arguments")])),
  ("class_body", sequence [openBrace,
    many (oneOf [
      sequence [field "member" (ref "method_definition"), optional ";"],
      sequence [field "member" (ref "field_definition"), ref "_semicolon"],
      field "member" (ref "class_static_block"),
      ";"]),
    closeBrace]),
  ("field_definition", sequence [many (field "decorator" (ref "decorator")), optional "static",
    field "property" (ref "_property_name"), optional (ref "_initializer")]),
  ("formal_parameters", sequence ["(",
    optional (sequence [commaSep1 (ref "_formal_parameter"), optional ","]), ")"]),
  ("class_static_block", sequence ["static", field "body" (ref "statement_block")]),
  ("pattern", dynamic (-1) (oneOf [ref "_lhs_expression", ref "rest_pattern"])),
  ("rest_pattern", right (sequence ["...", ref "_lhs_expression"])),
  ("method_definition", sequence [many (field "decorator" (ref "decorator")),
    optional (oneOf ["static", aliased ⟨"static get", false⟩ (pattern staticGetterPattern)]),
    optional "async", optional (oneOf ["get", "set", "*"]), field "name" (ref "_property_name"),
    field "parameters" (ref "formal_parameters"), field "body" (ref "statement_block")]),
  ("pair", sequence [field "key" (ref "_property_name"), ":", field "value" (ref "expression")]),
  ("pair_pattern", sequence [field "key" (ref "_property_name"), ":",
    field "value" (oneOf [ref "pattern", ref "assignment_pattern"])]),
  ("_property_name", freeWords (oneOf [nameAs "property_identifier",
    ref "private_property_identifier", ref "string", ref "number",
    ref "computed_property_name"])),
  ("computed_property_name", sequence ["[", ref "expression", "]"]),
  ("_reserved_identifier", oneOf ["get", "set", "async", "await", "static", "export", "let"]),
  ("_semicolon", oneOf [ref "_automatic_semicolon", ";"])]

/-- Precedences from strong to weak, in the groups in which they are compared. -/
def orders : List (List Rank) := [
  [.name "member", .name "template_call", .name "call", .rule "update_expression",
    .name "unary_void", .name "binary_exp", .name "binary_times", .name "binary_plus",
    .name "binary_shift", .name "binary_compare", .name "binary_relation",
    .name "binary_equality", .name "bitwise_and", .name "bitwise_xor", .name "bitwise_or",
    .name "logical_and", .name "logical_or", .name "ternary", .rule "sequence_expression",
    .rule "arrow_function"],
  [.name "assign", .rule "primary_expression"],
  [.name "member", .name "template_call", .name "new", .name "call", .rule "expression"],
  [.name "declare", .name "literal"],
  [.rule "primary_expression", .rule "statement_block", .name "object"],
  [.rule "meta_property", .rule "import"],
  [.rule "import_statement", .rule "import"],
  [.rule "export_statement", .rule "primary_expression"],
  [.rule "lexical_declaration", .rule "primary_expression"]]

def externals : List String := ["_automatic_semicolon", "_template_chars", "_ternary_qmark",
  "html_comment", "||", "escape_sequence", "regex_pattern", "jsx_text"]

def supertypes : List String :=
  ["statement", "declaration", "expression", "primary_expression", "pattern"]

def inlined : List String := ["_call_signature", "_formal_parameter", "_expressions", "_semicolon",
  "_identifier", "_reserved_identifier", "_jsx_attribute", "_jsx_element_name", "_jsx_child",
  "_jsx_element", "_jsx_attribute_name", "_jsx_attribute_value", "_jsx_identifier",
  "_lhs_expression"]

/-- Tokens that match almost any text, or parts of other tokens: they are not looked
for when the surroundings are unknown. -/
def uncertain : List String := ["unescaped_double_string_fragment",
  "unescaped_single_string_fragment", "unescaped_double_jsx_string_fragment",
  "unescaped_single_jsx_string_fragment", "regex_pattern", "regex_flags", "jsx_identifier",
  "html_character_reference"]

def reserved : List String := ["break", "case", "catch", "class", "const", "continue", "debugger",
  "default", "delete", "do", "else", "export", "extends", "false", "finally", "for", "function",
  "if", "import", "in", "instanceof", "new", "null", "return", "super", "switch", "this", "throw",
  "true", "try", "typeof", "var", "void", "while", "with"]

def specification : Specification where
  rules := baseRules
  externals := externals
  extras := ["comment", "html_comment"]
  blanks := blanks
  word := "identifier"
  reserved := reserved
  supertypes := supertypes
  inlined := inlined
  orders := orders
  uncertain := uncertain

end FunctionInventory.JavaScript
