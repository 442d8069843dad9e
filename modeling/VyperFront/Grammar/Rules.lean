import VyperFront.Grammar.NodeKind

namespace VyperFront

/-- What a matched rule adds to the tree. -/
inductive Shape where
  /-- A node of the given kind over the kept children. -/
  | node (kind : NodeKind)
  /-- The kept children themselves, in the place of the whole. -/
  | splice
  /-- The only kept child, which stands for the whole. -/
  | pass
  deriving DecidableEq, Repr, Inhabited

/-- One part of a rule. -/
inductive Rule.Part where
  | one (symbol : Symbol)
  /-- Symbols that are matched together or not at all. -/
  | maybe (symbols : List Symbol)

instance : Coe Symbol Rule.Part := ⟨.one⟩

structure Rule where
  shape : Shape
  parts : List Rule.Part
  /-- Whether keywords and punctuation stay in the tree. -/
  keepsLiterals : Bool

namespace Rule

def node (kind : NodeKind) (parts : List Part) : Rule := ⟨.node kind, parts, false⟩
def splice (parts : List Part) : Rule := ⟨.splice, parts, false⟩
def pass (parts : List Part) : Rule := ⟨.pass, parts, false⟩

/-- A rule of literals that stay in the tree. -/
def literals (parts : List Part) : Rule := ⟨.splice, parts, true⟩

end Rule

namespace Nonterminal

open Rule Rule.Part

private abbrev tok (t : Terminal) : Symbol := .terminal t
private abbrev sub (n : Nonterminal) : Symbol := .nonterminal n

def rules : Nonterminal → List Rule
  | program => [pass [sub sourceFile]]
  | sourceFile => [node .sourceFile [maybe [sub fileItems]]]
  | fileItems =>
    [splice [maybe [sub fileItems], tok .newline], splice [maybe [sub fileItems], sub statement]]
  | statement => [splice [sub simpleStatements], splice [sub compoundStatement]]
  | simpleStatements =>
    [splice [sub smallStatement, maybe [sub moreSmallStatements], maybe [tok .semicolon],
      tok .newline]]
  | moreSmallStatements =>
    [splice [maybe [sub moreSmallStatements], tok .semicolon, sub smallStatement]]
  | smallStatement =>
    [splice [sub expressionStatement], splice [sub assignment], splice [sub augmentedAssignment],
     splice [sub annotatedAssignment], splice [sub passStatement], splice [sub breakStatement],
     splice [sub continueStatement], splice [sub returnStatement], splice [sub raiseStatement],
     splice [sub assertStatement], splice [sub logStatement], splice [sub importStatement],
     splice [sub importFromStatement], splice [sub implementsStatement]]

  | expressionStatement => [node .expressionStatement [sub testlist]]
  | assignment => [node .assignment [sub testlist, sub assignedValues]]
  | assignedValues => [splice [maybe [sub assignedValues], tok .equal, sub testlist]]
  | augmentedAssignment =>
    [node .augmentedAssignment [sub testlist, sub augmentedOperator, sub testlist]]
  | annotatedAssignment =>
    [node .annotatedAssignment
      [sub testlist, tok .colon, sub test, maybe [tok .equal, sub test]]]
  | augmentedOperator =>
    [literals [tok .plusEqual], literals [tok .minusEqual], literals [tok .starEqual],
     literals [tok .slashEqual], literals [tok .doubleSlashEqual], literals [tok .percentEqual],
     literals [tok .doubleStarEqual], literals [tok .ampersandEqual], literals [tok .barEqual],
     literals [tok .caretEqual], literals [tok .shiftLeftEqual], literals [tok .shiftRightEqual]]

  | passStatement => [node .passStatement [tok .kwPass]]
  | breakStatement => [node .breakStatement [tok .kwBreak]]
  | continueStatement => [node .continueStatement [tok .kwContinue]]
  | returnStatement => [node .returnStatement [tok .kwReturn, maybe [sub testlist]]]
  | raiseStatement => [node .raiseStatement [tok .kwRaise, maybe [sub test]]]
  | assertStatement =>
    [node .assertStatement [tok .kwAssert, sub test, maybe [tok .comma, sub test]]]
  | logStatement => [node .logStatement [tok .kwLog, sub test]]
  | implementsStatement =>
    [node .implementsStatement [tok .kwImplements, tok .colon, sub dottedName]]

  | importStatement =>
    [node .importStatement [tok .kwImport, sub importName, maybe [sub moreImportNames]]]
  | importFromStatement =>
    [node .importFromStatement
      [tok .kwFrom, sub importSource, tok .kwImport, sub wildcardImport],
     node .importFromStatement
      [tok .kwFrom, sub importSource, tok .kwImport, tok .leftParen, sub importList,
        tok .rightParen],
     node .importFromStatement [tok .kwFrom, sub importSource, tok .kwImport, sub importList]]
  | importSource => [splice [sub dottedName], splice [sub relativeImport]]
  | relativeImport => [node .relativeImport [sub importPrefix, maybe [sub dottedName]]]
  | importPrefix => [node .importPrefix [sub dots]]
  | dots => [literals [maybe [sub dots], tok .dot]]
  | wildcardImport => [node .wildcardImport [tok .star]]
  | importList => [splice [sub importName, maybe [sub moreImportNames], maybe [tok .comma]]]
  | moreImportNames => [splice [maybe [sub moreImportNames], tok .comma, sub importName]]
  | importName => [splice [sub dottedName], splice [sub aliasedImport]]
  | aliasedImport => [node .aliasedImport [sub dottedName, tok .kwAs, tok .name]]
  | dottedName => [node .dottedName [tok .name, maybe [sub moreNameParts]]]
  | moreNameParts => [splice [maybe [sub moreNameParts], tok .dot, tok .name]]

  | compoundStatement =>
    [splice [sub ifStatement], splice [sub forStatement], splice [sub functionDefinition],
     splice [sub decoratedDefinition], splice [sub eventDefinition],
     splice [sub structDefinition], splice [sub flagDefinition],
     splice [sub interfaceDefinition]]
  | ifStatement =>
    [node .ifStatement
      [tok .kwIf, sub test, tok .colon, sub block, maybe [sub elifClauses],
        maybe [sub elseClause]]]
  | elifClauses => [splice [maybe [sub elifClauses], sub elifClause]]
  | elifClause => [node .elifClause [tok .kwElif, sub test, tok .colon, sub block]]
  | elseClause => [node .elseClause [tok .kwElse, tok .colon, sub block]]
  | forStatement =>
    [node .forStatement
      [tok .kwFor, tok .name, maybe [tok .colon, sub expr], tok .kwIn, sub testlist, tok .colon,
        sub block]]

  | decoratedDefinition => [node .decoratedDefinition [sub decorators, sub functionDefinition]]
  | decorators => [splice [maybe [sub decorators], sub decorator]]
  | decorator => [node .decorator [tok .atSign, sub test, tok .newline]]
  | functionDefinition =>
    [node .functionDefinition
      [tok .kwDef, tok .name, sub parameters, maybe [tok .arrow, sub test], tok .colon,
        sub block]]
  | parameters => [node .parameters [tok .leftParen, maybe [sub parameterList], tok .rightParen]]
  | parameterList => [splice [sub parameter, maybe [sub moreParameters], maybe [tok .comma]]]
  | moreParameters => [splice [maybe [sub moreParameters], tok .comma, sub parameter]]
  | parameter =>
    [pass [tok .name],
     node .typedParameter [tok .name, tok .colon, sub test],
     node .defaultParameter [tok .name, tok .equal, sub test],
     node .typedDefaultParameter [tok .name, tok .colon, sub test, tok .equal, sub test]]
  | eventDefinition => [node .eventDefinition [tok .kwEvent, tok .name, tok .colon, sub block]]
  | structDefinition => [node .structDefinition [tok .kwStruct, tok .name, tok .colon, sub block]]
  | flagDefinition =>
    [node .flagDefinition [tok .kwFlag, tok .name, tok .colon, sub block],
     node .flagDefinition [tok .kwEnum, tok .name, tok .colon, sub block]]
  | interfaceDefinition =>
    [node .interfaceDefinition [tok .kwInterface, tok .name, tok .colon, sub block]]
  | block =>
    [node .block [sub simpleStatements],
     node .block [tok .newline, tok .indent, sub statements, tok .dedent]]
  | statements => [splice [maybe [sub statements], sub statement]]

  | testlist =>
    [pass [sub test],
     node .tuple [sub test, sub moreTests, maybe [tok .comma]],
     node .tuple [sub test, tok .comma]]
  | moreTests => [splice [maybe [sub moreTests], tok .comma, sub test]]
  | test =>
    [pass [sub orTest],
     node .conditionalExpression [sub orTest, tok .kwIf, sub orTest, tok .kwElse, sub test]]
  | orTest => [pass [sub andTest], node .booleanOperator [sub orTest, sub orOperator, sub andTest]]
  | andTest =>
    [pass [sub notTest], node .booleanOperator [sub andTest, sub andOperator, sub notTest]]
  | notTest => [node .notOperator [tok .kwNot, sub notTest], pass [sub comparison]]
  | comparison => [pass [sub expr], node .comparisonOperator [sub expr, sub comparisonTail]]
  | comparisonTail => [splice [maybe [sub comparisonTail], sub comparisonOperator, sub expr]]
  | expr => [pass [sub xorExpr], node .binaryOperator [sub expr, sub bitOrOperator, sub xorExpr]]
  | xorExpr =>
    [pass [sub andExpr], node .binaryOperator [sub xorExpr, sub bitXorOperator, sub andExpr]]
  | andExpr =>
    [pass [sub shiftExpr], node .binaryOperator [sub andExpr, sub bitAndOperator, sub shiftExpr]]
  | shiftExpr =>
    [pass [sub arithExpr], node .binaryOperator [sub shiftExpr, sub shiftOperator, sub arithExpr]]
  | arithExpr => [pass [sub term], node .binaryOperator [sub arithExpr, sub addOperator, sub term]]
  | term => [pass [sub factor], node .binaryOperator [sub term, sub multiplyOperator, sub factor]]
  | factor => [node .unaryOperator [sub unaryOperator, sub factor], pass [sub power]]
  | power =>
    [pass [sub prefixedCall],
     node .binaryOperator [sub prefixedCall, sub powerOperator, sub factor]]
  | prefixedCall =>
    [node .externalCall [tok .kwExtcall, sub primary],
     node .staticCall [tok .kwStaticcall, sub primary],
     pass [sub primary]]

  | primary =>
    [node .call [sub primary, sub argumentList],
     node .subscript [sub primary, tok .leftBracket, sub expressionList, tok .rightBracket],
     node .attributeAccess [sub primary, tok .dot, tok .name],
     pass [sub atom]]
  | argumentList => [node .argumentList [tok .leftParen, maybe [sub arguments], tok .rightParen]]
  | arguments => [splice [sub argument, maybe [sub moreArguments], maybe [tok .comma]]]
  | moreArguments => [splice [maybe [sub moreArguments], tok .comma, sub argument]]
  | argument => [pass [sub test], node .keywordArgument [tok .name, tok .equal, sub test]]
  | atom =>
    [pass [tok .leftParen, sub test, tok .rightParen],
     node .tuple [tok .leftParen, maybe [sub tupleItems], tok .rightParen],
     node .list [tok .leftBracket, maybe [sub expressionList], tok .rightBracket],
     node .dictionary [tok .leftBrace, maybe [sub pairList], tok .rightBrace],
     pass [tok .name],
     pass [tok .decNumber], pass [tok .hexNumber], pass [tok .octNumber], pass [tok .binNumber],
     pass [tok .floatNumber],
     pass [tok .string], pass [tok .longString],
     node .ellipsis [tok .ellipsis],
     node .trueLiteral [tok .kwTrue],
     node .falseLiteral [tok .kwFalse]]
  | tupleItems =>
    [splice [sub test, sub moreTests, maybe [tok .comma]], splice [sub test, tok .comma]]
  | expressionList => [splice [sub test, maybe [sub moreTests], maybe [tok .comma]]]
  | pairList => [splice [sub pair, maybe [sub morePairs], maybe [tok .comma]]]
  | morePairs => [splice [maybe [sub morePairs], tok .comma, sub pair]]
  | pair => [node .pair [sub test, tok .colon, sub test]]

  | orOperator => [literals [tok .kwOr]]
  | andOperator => [literals [tok .kwAnd]]
  | comparisonOperator =>
    [literals [tok .less], literals [tok .greater], literals [tok .equalEqual],
     literals [tok .greaterEqual], literals [tok .lessEqual], literals [tok .notEqual],
     literals [tok .kwIn], literals [tok .kwNot, tok .kwIn]]
  | bitOrOperator => [literals [tok .bar]]
  | bitXorOperator => [literals [tok .caret]]
  | bitAndOperator => [literals [tok .ampersand]]
  | shiftOperator => [literals [tok .shiftLeft], literals [tok .shiftRight]]
  | addOperator => [literals [tok .plus], literals [tok .minus]]
  | multiplyOperator =>
    [literals [tok .star], literals [tok .slash], literals [tok .doubleSlash],
     literals [tok .percent]]
  | unaryOperator => [literals [tok .plus], literals [tok .minus], literals [tok .tilde]]
  | powerOperator => [literals [tok .doubleStar]]

/-- Whether every rule of the phrase adds its children to the surrounding node. -/
def isSpliced (n : Nonterminal) : Bool :=
  n.rules.all (·.shape == .splice)

end Nonterminal

end VyperFront
