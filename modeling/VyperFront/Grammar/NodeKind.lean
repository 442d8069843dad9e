import VyperFront.Grammar.Symbol

namespace VyperFront

/-- The kinds of named nodes, in the order of their names. -/
inductive NodeKind where
  | error | aliasedImport | annotatedAssignment | argumentList | assertStatement | assignment
  | attributeAccess | augmentedAssignment | binaryOperator | block | booleanOperator | breakStatement
  | call | comparisonOperator | conditionalExpression | continueStatement | decimal
  | decoratedDefinition | decorator | defaultParameter | dictionary | dottedName | elifClause
  | ellipsis | elseClause | eventDefinition | expressionStatement | externalCall | falseLiteral
  | flagDefinition | forStatement | functionDefinition | identifier | ifStatement
  | implementsStatement | importFromStatement | importPrefix | importStatement | integer
  | interfaceDefinition | keywordArgument | list | logStatement | notOperator | pair | parameters
  | passStatement | raiseStatement | relativeImport | returnStatement | sourceFile | staticCall
  | string | structDefinition | subscript | trueLiteral | tuple | typedDefaultParameter
  | typedParameter | unaryOperator | wildcardImport
  deriving DecidableEq, Repr, Inhabited

namespace NodeKind

def all : List NodeKind :=
  [error, aliasedImport, annotatedAssignment, argumentList, assertStatement, assignment,
   attributeAccess, augmentedAssignment, binaryOperator, block, booleanOperator, breakStatement,
   call, comparisonOperator, conditionalExpression, continueStatement, decimal,
   decoratedDefinition, decorator, defaultParameter, dictionary, dottedName, elifClause,
   ellipsis, elseClause, eventDefinition, expressionStatement, externalCall, falseLiteral,
   flagDefinition, forStatement, functionDefinition, identifier, ifStatement,
   implementsStatement, importFromStatement, importPrefix, importStatement, integer,
   interfaceDefinition, keywordArgument, list, logStatement, notOperator, pair, parameters,
   passStatement, raiseStatement, relativeImport, returnStatement, sourceFile, staticCall,
   string, structDefinition, subscript, trueLiteral, tuple, typedDefaultParameter,
   typedParameter, unaryOperator, wildcardImport]

def text : NodeKind → String
  | error => "ERROR"
  | aliasedImport => "aliased_import"
  | annotatedAssignment => "annotated_assignment"
  | argumentList => "argument_list"
  | assertStatement => "assert_statement"
  | assignment => "assignment"
  | attributeAccess => "attribute"
  | augmentedAssignment => "augmented_assignment"
  | binaryOperator => "binary_operator"
  | block => "block"
  | booleanOperator => "boolean_operator"
  | breakStatement => "break_statement"
  | call => "call"
  | comparisonOperator => "comparison_operator"
  | conditionalExpression => "conditional_expression"
  | continueStatement => "continue_statement"
  | decimal => "decimal"
  | decoratedDefinition => "decorated_definition"
  | decorator => "decorator"
  | defaultParameter => "default_parameter"
  | dictionary => "dictionary"
  | dottedName => "dotted_name"
  | elifClause => "elif_clause"
  | ellipsis => "ellipsis"
  | elseClause => "else_clause"
  | eventDefinition => "event_definition"
  | expressionStatement => "expression_statement"
  | externalCall => "external_call"
  | falseLiteral => "false"
  | flagDefinition => "flag_definition"
  | forStatement => "for_statement"
  | functionDefinition => "function_definition"
  | identifier => "identifier"
  | ifStatement => "if_statement"
  | implementsStatement => "implements_statement"
  | importFromStatement => "import_from_statement"
  | importPrefix => "import_prefix"
  | importStatement => "import_statement"
  | integer => "integer"
  | interfaceDefinition => "interface_definition"
  | keywordArgument => "keyword_argument"
  | list => "list"
  | logStatement => "log_statement"
  | notOperator => "not_operator"
  | pair => "pair"
  | parameters => "parameters"
  | passStatement => "pass_statement"
  | raiseStatement => "raise_statement"
  | relativeImport => "relative_import"
  | returnStatement => "return_statement"
  | sourceFile => "source_file"
  | staticCall => "static_call"
  | string => "string"
  | structDefinition => "struct_definition"
  | subscript => "subscript"
  | trueLiteral => "true"
  | tuple => "tuple"
  | typedDefaultParameter => "typed_default_parameter"
  | typedParameter => "typed_parameter"
  | unaryOperator => "unary_operator"
  | wildcardImport => "wildcard_import"

/-- The kinds of leaves: what the lexeme classes with a kind of their own map to. -/
def ofTerminal? : Terminal → Option NodeKind
  | .name => some identifier
  | .decNumber | .hexNumber | .octNumber | .binNumber => some integer
  | .floatNumber => some decimal
  | .string | .longString => some string
  | _ => none

theorem mem_all (k : NodeKind) : k ∈ all := by
  cases k <;> decide

end NodeKind

/-- The names a child can be asked for by, in alphabetical order. -/
inductive Field where
  | aliasName | alternative | argument | arguments | attributeName | body | call | condition
  | consequence | event | function | interface | key | left | message | moduleName | name
  | object | operator | parameters | returnType | right | subscript | type | value
  deriving DecidableEq, Repr, Inhabited

namespace Field

def all : List Field :=
  [aliasName, alternative, argument, arguments, attributeName, body, call, condition,
   consequence, event, function, interface, key, left, message, moduleName, name,
   object, operator, parameters, returnType, right, subscript, type, value]

def text : Field → String
  | aliasName => "alias"
  | alternative => "alternative"
  | argument => "argument"
  | arguments => "arguments"
  | attributeName => "attribute"
  | body => "body"
  | call => "call"
  | condition => "condition"
  | consequence => "consequence"
  | event => "event"
  | function => "function"
  | interface => "interface"
  | key => "key"
  | left => "left"
  | message => "message"
  | moduleName => "module_name"
  | name => "name"
  | object => "object"
  | operator => "operator"
  | parameters => "parameters"
  | returnType => "return_type"
  | right => "right"
  | subscript => "subscript"
  | type => "type"
  | value => "value"

theorem mem_all (f : Field) : f ∈ all := by
  cases f <;> decide

end Field

namespace NodeKind

/-- The fields of a kind's children by position. Where there are more children
than fields, the last field repeats: `elif` chains, chained assignments. -/
def fields : NodeKind → List Field
  | functionDefinition => [.name, .parameters, .returnType, .body]
  | typedParameter => [.name, .type]
  | defaultParameter => [.name, .value]
  | typedDefaultParameter => [.name, .type, .value]
  | eventDefinition | structDefinition | flagDefinition | interfaceDefinition => [.name, .body]
  | ifStatement => [.condition, .consequence, .alternative]
  | elifClause => [.condition, .consequence]
  | elseClause => [.body]
  | forStatement => [.left, .type, .right, .body]
  | assignment => [.left, .right]
  | augmentedAssignment => [.left, .operator, .right]
  | annotatedAssignment => [.left, .type, .right]
  | assertStatement => [.condition, .message]
  | logStatement => [.event]
  | implementsStatement => [.interface]
  | importFromStatement => [.moduleName, .name]
  | aliasedImport => [.name, .aliasName]
  | call => [.function, .arguments]
  | externalCall | staticCall => [.call]
  | attributeAccess => [.object, .attributeName]
  | subscript => [.value, .subscript]
  | keywordArgument => [.name, .value]
  | pair => [.key, .value]
  | binaryOperator | booleanOperator => [.left, .operator, .right]
  | unaryOperator => [.operator, .argument]
  | notOperator => [.argument]
  | conditionalExpression => [.consequence, .condition, .alternative]
  | _ => []

/-- The field of the child at a position, if children of the kind have fields. -/
def field? (k : NodeKind) (position : Nat) : Option Field :=
  match k.fields[position]? with
  | some f => some f
  | none => k.fields.getLast?

end NodeKind

end VyperFront
