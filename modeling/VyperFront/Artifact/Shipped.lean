import VyperFront.Text.Basic

/-! The artifact that goes with the library: the grammar in writing. The rules that
sources are read by are the same, as data. -/

namespace VyperFront.Artifact

/-- The header that the artifact goes out with. -/
def shippedHeader : Text := "// abi-version: 14".toList

/-- The lines below the header. -/
def bodyLines : List String :=
  ["// Vyper grammar for Lark (LALR, with the indentation post-lexer).",
   "// Start symbol: source_file",
   "",
   "source_file: (_NEWLINE | _statement)*",
   "",
   "_statement: _simple_statements | _compound_statement",
   "_simple_statements: _small_statement (\";\" _small_statement)* [\";\"] _NEWLINE",
   "",
   "_small_statement: expression_statement",
   "                | assignment",
   "                | augmented_assignment",
   "                | annotated_assignment",
   "                | pass_statement",
   "                | break_statement",
   "                | continue_statement",
   "                | return_statement",
   "                | raise_statement",
   "                | assert_statement",
   "                | log_statement",
   "                | import_statement",
   "                | import_from_statement",
   "                | implements_statement",
   "",
   "expression_statement: testlist",
   "assignment: testlist (\"=\" testlist)+",
   "augmented_assignment: testlist _augassign_op testlist",
   "annotated_assignment: testlist \":\" test [\"=\" test]",
   "!_augassign_op: \"+=\" | \"-=\" | \"*=\" | \"/=\" | \"//=\" | \"%=\" | \"**=\" | \"&=\" | \"|=\" | \"^=\" | \"<<=\" | \">>=\"",
   "",
   "pass_statement: \"pass\"",
   "break_statement: \"break\"",
   "continue_statement: \"continue\"",
   "return_statement: \"return\" [testlist]",
   "raise_statement: \"raise\" [test]",
   "assert_statement: \"assert\" test [\",\" test]",
   "log_statement: \"log\" test",
   "implements_statement: \"implements\" \":\" dotted_name",
   "",
   "import_statement: \"import\" _import_name (\",\" _import_name)*",
   "import_from_statement: \"from\" _import_source \"import\" (wildcard_import | \"(\" _import_list \")\" | _import_list)",
   "_import_source: dotted_name | relative_import",
   "relative_import: import_prefix [dotted_name]",
   "!import_prefix: \".\"+",
   "wildcard_import: \"*\"",
   "_import_list: _import_name (\",\" _import_name)* [\",\"]",
   "_import_name: dotted_name | aliased_import",
   "aliased_import: dotted_name \"as\" NAME",
   "dotted_name: NAME (\".\" NAME)*",
   "",
   "// Compound statements",
   "",
   "_compound_statement: if_statement",
   "                   | for_statement",
   "                   | function_definition",
   "                   | decorated_definition",
   "                   | event_definition",
   "                   | struct_definition",
   "                   | flag_definition",
   "                   | interface_definition",
   "",
   "if_statement: \"if\" test \":\" block elif_clause* [else_clause]",
   "elif_clause: \"elif\" test \":\" block",
   "else_clause: \"else\" \":\" block",
   "for_statement: \"for\" NAME [\":\" expr] \"in\" testlist \":\" block",
   "",
   "decorated_definition: decorator+ function_definition",
   "decorator: \"@\" test _NEWLINE",
   "function_definition: \"def\" NAME parameters [\"->\" test] \":\" block",
   "parameters: \"(\" [_parameter_list] \")\"",
   "_parameter_list: parameter (\",\" parameter)* [\",\"]",
   "?parameter: NAME",
   "          | NAME \":\" test -> typed_parameter",
   "          | NAME \"=\" test -> default_parameter",
   "          | NAME \":\" test \"=\" test -> typed_default_parameter",
   "",
   "event_definition: \"event\" NAME \":\" block",
   "struct_definition: \"struct\" NAME \":\" block",
   "flag_definition: (\"flag\" | \"enum\") NAME \":\" block",
   "interface_definition: \"interface\" NAME \":\" block",
   "",
   "block: _simple_statements | _NEWLINE _INDENT _statement+ _DEDENT",
   "",
   "// Expressions",
   "",
   "?testlist: test",
   "         | test (\",\" test)+ [\",\"] -> tuple",
   "         | test \",\" -> tuple",
   "",
   "?test: or_test",
   "     | or_test \"if\" or_test \"else\" test -> conditional_expression",
   "",
   "?or_test: and_test",
   "        | or_test _or and_test -> boolean_operator",
   "?and_test: not_test",
   "         | and_test _and not_test -> boolean_operator",
   "?not_test: \"not\" not_test -> not_operator",
   "         | comparison",
   "?comparison: expr",
   "           | expr (_comp_op expr)+ -> comparison_operator",
   "",
   "?expr: xor_expr",
   "     | expr _bor xor_expr -> binary_operator",
   "?xor_expr: and_expr",
   "         | xor_expr _bxor and_expr -> binary_operator",
   "?and_expr: shift_expr",
   "         | and_expr _band shift_expr -> binary_operator",
   "?shift_expr: arith_expr",
   "           | shift_expr _shift_op arith_expr -> binary_operator",
   "?arith_expr: term",
   "           | arith_expr _add_op term -> binary_operator",
   "?term: factor",
   "     | term _mul_op factor -> binary_operator",
   "?factor: _unary_op factor -> unary_operator",
   "       | power",
   "?power: prefixed_call",
   "      | prefixed_call _pow factor -> binary_operator",
   "",
   "?prefixed_call: \"extcall\" primary -> external_call",
   "              | \"staticcall\" primary -> static_call",
   "              | primary",
   "",
   "?primary: primary argument_list -> call",
   "        | primary \"[\" _exprlist \"]\" -> subscript",
   "        | primary \".\" NAME -> attribute",
   "        | atom",
   "",
   "argument_list: \"(\" [_arguments] \")\"",
   "_arguments: argument (\",\" argument)* [\",\"]",
   "?argument: test",
   "         | NAME \"=\" test -> keyword_argument",
   "",
   "?atom: \"(\" test \")\"",
   "     | \"(\" _tuple_items? \")\" -> tuple",
   "     | \"[\" _exprlist? \"]\" -> list",
   "     | \"\x7b\" _pair_list? \"\x7d\" -> dictionary",
   "     | NAME",
   "     | DEC_NUMBER | HEX_NUMBER | OCT_NUMBER | BIN_NUMBER | FLOAT_NUMBER",
   "     | STRING | LONG_STRING",
   "     | \"...\" -> ellipsis",
   "     | \"True\" -> true",
   "     | \"False\" -> false",
   "",
   "_tuple_items: test ((\",\" test)+ [\",\"] | \",\")",
   "_exprlist: test (\",\" test)* [\",\"]",
   "_pair_list: pair (\",\" pair)* [\",\"]",
   "pair: test \":\" test",
   "",
   "!_or: \"or\"",
   "!_and: \"and\"",
   "!_comp_op: \"<\" | \">\" | \"==\" | \">=\" | \"<=\" | \"!=\" | \"in\" | \"not\" \"in\"",
   "!_bor: \"|\"",
   "!_bxor: \"^\"",
   "!_band: \"&\"",
   "!_shift_op: \"<<\" | \">>\"",
   "!_add_op: \"+\" | \"-\"",
   "!_mul_op: \"*\" | \"/\" | \"//\" | \"%\"",
   "!_unary_op: \"+\" | \"-\" | \"~\"",
   "!_pow: \"**\"",
   "",
   "// Terminals",
   "",
   "_NEWLINE: ( /\\r?\\n[\\t ]*/ | COMMENT )+",
   "",
   "%ignore /[\\t \\f]+/",
   "%ignore /\\\\[\\t \\f]*\\r?\\n/",
   "%ignore COMMENT",
   "%declare _INDENT _DEDENT",
   "",
   "NAME: /[^\\W\\d]\\w*/",
   "COMMENT: /#[^\\n]*/",
   "",
   "STRING: /([ubfx]?r?|r[ubf])(\"(?!\"\").*?(?<!\\\\)(\\\\\\\\)*?\"|'(?!'').*?(?<!\\\\)(\\\\\\\\)*?')/i",
   "LONG_STRING: /([ubf]?r?|r[ubf])(\"\"\".*?(?<!\\\\)(\\\\\\\\)*?\"\"\"|'''.*?(?<!\\\\)(\\\\\\\\)*?''')/is",
   "",
   "_SPECIAL_DEC: \"0\"..\"9\"        (\"_\"?  \"0\"..\"9\"                       )*",
   "DEC_NUMBER:   \"1\"..\"9\"        (\"_\"?  \"0\"..\"9\"                       )*",
   "          |   \"0\"             (\"_\"?  \"0\"                            )* /(?![1-9])/",
   "HEX_NUMBER.2: \"0\" (\"x\" | \"X\") (\"_\"? (\"0\"..\"9\" | \"a\"..\"f\" | \"A\"..\"F\"))+",
   "OCT_NUMBER.2: \"0\" (\"o\" | \"O\") (\"_\"?  \"0\"..\"7\"                       )+",
   "BIN_NUMBER.2: \"0\" (\"b\" | \"B\") (\"_\"?  \"0\"..\"1\"                       )+",
   "",
   "_EXP: (\"e\"|\"E\") [\"+\" | \"-\"] _SPECIAL_DEC",
   "DECIMAL: \".\" _SPECIAL_DEC | _SPECIAL_DEC \".\" _SPECIAL_DEC?",
   "FLOAT_NUMBER.2: _SPECIAL_DEC _EXP | DECIMAL _EXP?"]

/-- All that follows the header. -/
def body : Text := (bodyLines.flatMap fun line => line.toList ++ ['\n'])

/-- An artifact with the given header over the shipped body. -/
def withHeader (header : Text) : Text := header ++ '\n' :: body

end VyperFront.Artifact
