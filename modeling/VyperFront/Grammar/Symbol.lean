/-! The alphabet of the Vyper grammar: terminals, nonterminals and sets of
terminals. A set of terminals is a bit mask over the terminals' positions, so
that unions of lookahead sets are single machine operations. -/

namespace VyperFront

/-- What the grammar is written over on the input side. -/
inductive Terminal where
  | name | decNumber | hexNumber | octNumber | binNumber | floatNumber | string | longString
  | newline | indent | dedent | endOfInput
  | kwPass | kwBreak | kwContinue | kwReturn | kwRaise | kwAssert | kwLog | kwImplements
  | kwImport | kwFrom | kwAs | kwIf | kwElif | kwElse | kwFor | kwIn | kwDef
  | kwEvent | kwStruct | kwFlag | kwEnum | kwInterface
  | kwNot | kwAnd | kwOr | kwExtcall | kwStaticcall | kwTrue | kwFalse
  | semicolon | equal | colon
  | plusEqual | minusEqual | starEqual | slashEqual | doubleSlashEqual | percentEqual
  | doubleStarEqual | ampersandEqual | barEqual | caretEqual | shiftLeftEqual | shiftRightEqual
  | leftParen | rightParen | leftBracket | rightBracket | leftBrace | rightBrace
  | comma | dot | ellipsis | star | arrow | atSign
  | less | greater | equalEqual | greaterEqual | lessEqual | notEqual
  | bar | caret | ampersand | shiftLeft | shiftRight
  | plus | minus | slash | doubleSlash | percent | tilde | doubleStar
  deriving DecidableEq, Repr, Inhabited

/-- The phrases of the grammar. Those named for what they repeat (`statements`,
`moreTests`, ...) are the left-recursive lists behind the other rules. -/
inductive Nonterminal where
  | program | sourceFile | fileItems | statement | simpleStatements | moreSmallStatements
  | smallStatement
  | expressionStatement | assignment | assignedValues | augmentedAssignment | annotatedAssignment
  | augmentedOperator | passStatement | breakStatement | continueStatement | returnStatement
  | raiseStatement | assertStatement | logStatement | implementsStatement | importStatement
  | importFromStatement | importSource | relativeImport | importPrefix | dots | wildcardImport
  | importList | moreImportNames | importName | aliasedImport | dottedName | moreNameParts
  | compoundStatement | ifStatement | elifClauses | elifClause | elseClause | forStatement
  | decoratedDefinition | decorators | decorator | functionDefinition | parameters
  | parameterList | moreParameters | parameter | eventDefinition | structDefinition
  | flagDefinition | interfaceDefinition | block | statements
  | testlist | test | moreTests | orTest | andTest | notTest | comparison | comparisonTail
  | expr | xorExpr | andExpr | shiftExpr | arithExpr | term | factor | power | prefixedCall
  | primary | argumentList | arguments | moreArguments | argument | atom | tupleItems
  | expressionList | pairList | morePairs | pair
  | orOperator | andOperator | comparisonOperator | bitOrOperator | bitXorOperator
  | bitAndOperator | shiftOperator | addOperator | multiplyOperator | unaryOperator
  | powerOperator
  deriving DecidableEq, Repr, Inhabited

inductive Symbol where
  | terminal (terminal : Terminal)
  | nonterminal (nonterminal : Nonterminal)
  deriving DecidableEq, Repr, Inhabited

namespace Terminal

def all : List Terminal :=
  [name, decNumber, hexNumber, octNumber, binNumber, floatNumber, string, longString,
   newline, indent, dedent, endOfInput,
   kwPass, kwBreak, kwContinue, kwReturn, kwRaise, kwAssert, kwLog, kwImplements,
   kwImport, kwFrom, kwAs, kwIf, kwElif, kwElse, kwFor, kwIn, kwDef,
   kwEvent, kwStruct, kwFlag, kwEnum, kwInterface,
   kwNot, kwAnd, kwOr, kwExtcall, kwStaticcall, kwTrue, kwFalse,
   semicolon, equal, colon,
   plusEqual, minusEqual, starEqual, slashEqual, doubleSlashEqual, percentEqual,
   doubleStarEqual, ampersandEqual, barEqual, caretEqual, shiftLeftEqual, shiftRightEqual,
   leftParen, rightParen, leftBracket, rightBracket, leftBrace, rightBrace,
   comma, dot, ellipsis, star, arrow, atSign,
   less, greater, equalEqual, greaterEqual, lessEqual, notEqual,
   bar, caret, ampersand, shiftLeft, shiftRight,
   plus, minus, slash, doubleSlash, percent, tilde, doubleStar]

/-- The fixed text of a keyword or of punctuation; the other terminals have a
pattern or come from the layout. -/
def spelling? : Terminal → Option String
  | kwPass => some "pass"
  | kwBreak => some "break"
  | kwContinue => some "continue"
  | kwReturn => some "return"
  | kwRaise => some "raise"
  | kwAssert => some "assert"
  | kwLog => some "log"
  | kwImplements => some "implements"
  | kwImport => some "import"
  | kwFrom => some "from"
  | kwAs => some "as"
  | kwIf => some "if"
  | kwElif => some "elif"
  | kwElse => some "else"
  | kwFor => some "for"
  | kwIn => some "in"
  | kwDef => some "def"
  | kwEvent => some "event"
  | kwStruct => some "struct"
  | kwFlag => some "flag"
  | kwEnum => some "enum"
  | kwInterface => some "interface"
  | kwNot => some "not"
  | kwAnd => some "and"
  | kwOr => some "or"
  | kwExtcall => some "extcall"
  | kwStaticcall => some "staticcall"
  | kwTrue => some "True"
  | kwFalse => some "False"
  | semicolon => some ";"
  | equal => some "="
  | colon => some ":"
  | plusEqual => some "+="
  | minusEqual => some "-="
  | starEqual => some "*="
  | slashEqual => some "/="
  | doubleSlashEqual => some "//="
  | percentEqual => some "%="
  | doubleStarEqual => some "**="
  | ampersandEqual => some "&="
  | barEqual => some "|="
  | caretEqual => some "^="
  | shiftLeftEqual => some "<<="
  | shiftRightEqual => some ">>="
  | leftParen => some "("
  | rightParen => some ")"
  | leftBracket => some "["
  | rightBracket => some "]"
  | leftBrace => some "\x7b"
  | rightBrace => some "\x7d"
  | comma => some ","
  | dot => some "."
  | ellipsis => some "..."
  | star => some "*"
  | arrow => some "->"
  | atSign => some "@"
  | less => some "<"
  | greater => some ">"
  | equalEqual => some "=="
  | greaterEqual => some ">="
  | lessEqual => some "<="
  | notEqual => some "!="
  | bar => some "|"
  | caret => some "^"
  | ampersand => some "&"
  | shiftLeft => some "<<"
  | shiftRight => some ">>"
  | plus => some "+"
  | minus => some "-"
  | slash => some "/"
  | doubleSlash => some "//"
  | percent => some "%"
  | tilde => some "~"
  | doubleStar => some "**"
  | _ => none

/-- Whether the terminal is a keyword: a fixed text that also reads as a name. -/
def isKeyword : Terminal → Bool
  | kwPass | kwBreak | kwContinue | kwReturn | kwRaise | kwAssert | kwLog | kwImplements
  | kwImport | kwFrom | kwAs | kwIf | kwElif | kwElse | kwFor | kwIn | kwDef
  | kwEvent | kwStruct | kwFlag | kwEnum | kwInterface
  | kwNot | kwAnd | kwOr | kwExtcall | kwStaticcall | kwTrue | kwFalse => true
  | _ => false

theorem getElem?_all (t : Terminal) : all[t.ctorIdx]? = some t := by
  cases t <;> rfl

theorem mem_all (t : Terminal) : t ∈ all :=
  List.mem_of_getElem? t.getElem?_all

theorem map_ctorIdx_all : all.map Terminal.ctorIdx = List.range all.length := by decide

theorem bit_lt (t : Terminal) : 1 <<< t.ctorIdx < 1 <<< all.length := by
  rw [Nat.one_shiftLeft, Nat.one_shiftLeft]
  exact Nat.pow_lt_pow_right (by decide) (List.getElem?_eq_some_iff.mp t.getElem?_all).1

theorem ctorIdx_inj {t u : Terminal} : t.ctorIdx = u.ctorIdx ↔ t = u := by
  constructor
  · intro same
    exact Option.some.inj (t.getElem?_all.symm.trans (same ▸ u.getElem?_all))
  · exact congrArg Terminal.ctorIdx

end Terminal

namespace Nonterminal

def all : List Nonterminal :=
  [program, sourceFile, fileItems, statement, simpleStatements, moreSmallStatements, smallStatement,
   expressionStatement, assignment, assignedValues, augmentedAssignment, annotatedAssignment,
   augmentedOperator, passStatement, breakStatement, continueStatement, returnStatement,
   raiseStatement, assertStatement, logStatement, implementsStatement, importStatement,
   importFromStatement, importSource, relativeImport, importPrefix, dots, wildcardImport,
   importList, moreImportNames, importName, aliasedImport, dottedName, moreNameParts,
   compoundStatement, ifStatement, elifClauses, elifClause, elseClause, forStatement,
   decoratedDefinition, decorators, decorator, functionDefinition, parameters,
   parameterList, moreParameters, parameter, eventDefinition, structDefinition,
   flagDefinition, interfaceDefinition, block, statements,
   testlist, test, moreTests, orTest, andTest, notTest, comparison, comparisonTail,
   expr, xorExpr, andExpr, shiftExpr, arithExpr, term, factor, power, prefixedCall,
   primary, argumentList, arguments, moreArguments, argument, atom, tupleItems,
   expressionList, pairList, morePairs, pair,
   orOperator, andOperator, comparisonOperator, bitOrOperator, bitXorOperator,
   bitAndOperator, shiftOperator, addOperator, multiplyOperator, unaryOperator,
   powerOperator]

theorem getElem?_all (n : Nonterminal) : all[n.ctorIdx]? = some n := by
  cases n <;> rfl

theorem map_ctorIdx_all : all.map Nonterminal.ctorIdx = List.range all.length := by decide

theorem ctorIdx_of_getElem?_all {n : Nonterminal} {i : Nat} (found : all[i]? = some n) :
    n.ctorIdx = i := by
  have listed : (all.map Nonterminal.ctorIdx)[i]? = some n.ctorIdx := by
    rw [List.getElem?_map, found]
    rfl
  rw [map_ctorIdx_all, List.getElem?_range (List.getElem?_eq_some_iff.mp found).1] at listed
  exact (Option.some.inj listed).symm

theorem mem_all (n : Nonterminal) : n ∈ all :=
  List.mem_of_getElem? n.getElem?_all

theorem ctorIdx_inj {n m : Nonterminal} : n.ctorIdx = m.ctorIdx ↔ n = m := by
  constructor
  · intro same
    exact Option.some.inj (n.getElem?_all.symm.trans (same ▸ m.getElem?_all))
  · exact congrArg Nonterminal.ctorIdx

end Nonterminal

namespace Symbol

/-- A distinct number for each symbol: terminals are even, nonterminals odd. -/
def code : Symbol → Nat
  | terminal t => 2 * t.ctorIdx
  | nonterminal n => 2 * n.ctorIdx + 1

def all : List Symbol :=
  Terminal.all.map terminal ++ Nonterminal.all.map nonterminal

theorem code_inj : {s r : Symbol} → s.code = r.code ↔ s = r
  | terminal t, terminal u => by
    rw [terminal.injEq, ← Terminal.ctorIdx_inj, code, code]
    omega
  | nonterminal n, nonterminal m => by
    rw [nonterminal.injEq, ← Nonterminal.ctorIdx_inj, code, code]
    omega
  | terminal t, nonterminal n => by
    rw [code, code, iff_false_right Symbol.noConfusion]
    omega
  | nonterminal n, terminal t => by
    rw [code, code, iff_false_right Symbol.noConfusion]
    omega

theorem mem_all : (s : Symbol) → s ∈ all
  | terminal t => List.mem_append_left _ (List.mem_map_of_mem t.mem_all)
  | nonterminal n => List.mem_append_right _ (List.mem_map_of_mem n.mem_all)

end Symbol

/-- A set of terminals. It has no bits but those of terminals. -/
structure TerminalSet where
  bits : Nat
  bounded : bits < 1 <<< Terminal.all.length
  deriving DecidableEq, Repr

namespace TerminalSet

def empty : TerminalSet := ⟨0, by decide⟩

def singleton (t : Terminal) : TerminalSet := ⟨1 <<< t.ctorIdx, t.bit_lt⟩

def union (a b : TerminalSet) : TerminalSet :=
  ⟨a.bits ||| b.bits, Nat.one_shiftLeft _ ▸ Nat.or_lt_two_pow
    (Nat.one_shiftLeft _ ▸ a.bounded) (Nat.one_shiftLeft _ ▸ b.bounded)⟩

def contains (s : TerminalSet) (t : Terminal) : Bool := s.bits.testBit t.ctorIdx

instance : Inhabited TerminalSet := ⟨empty⟩

instance : EmptyCollection TerminalSet := ⟨empty⟩

instance : Union TerminalSet := ⟨union⟩

def ofList (ts : List Terminal) : TerminalSet :=
  ts.foldr (fun t s => singleton t ∪ s) ∅

def toList (s : TerminalSet) : List Terminal :=
  Terminal.all.filter s.contains

/-- Every terminal that the text of a source file can spell: all but the ones
the layout adds. -/
def spelled : TerminalSet :=
  ofList (Terminal.all.filter fun t => t ≠ .indent ∧ t ≠ .dedent ∧ t ≠ .endOfInput)

@[simp] theorem contains_union (a b : TerminalSet) (t : Terminal) :
    (a ∪ b).contains t = (a.contains t || b.contains t) :=
  Nat.testBit_or ..

@[simp] theorem contains_empty (t : Terminal) : (∅ : TerminalSet).contains t = false :=
  Nat.zero_testBit _

@[simp] theorem contains_singleton (u t : Terminal) :
    (singleton u).contains t = decide (u = t) := by
  change (1 <<< u.ctorIdx).testBit t.ctorIdx = _
  rw [Nat.one_shiftLeft, Nat.testBit_two_pow, decide_eq_decide, Terminal.ctorIdx_inj]

theorem ext {a b : TerminalSet} (same : ∀ t, a.contains t = b.contains t) : a = b := by
  cases a with | mk bits bounded =>
  cases b with | mk others within =>
  rw [mk.injEq]
  rw [Nat.one_shiftLeft] at bounded within
  apply Nat.eq_of_testBit_eq
  intro i
  by_cases inside : i < Terminal.all.length
  · have numbered := congrArg (·[i]?) Terminal.map_ctorIdx_all
    simp only [List.getElem?_map, List.getElem?_range inside, List.getElem?_eq_getElem inside,
      Option.map_some, Option.some.injEq] at numbered
    exact numbered ▸ same Terminal.all[i]
  · have far := Nat.pow_le_pow_right (n := 2) (by decide) (Nat.le_of_not_lt inside)
    rw [Nat.testBit_lt_two_pow (Nat.lt_of_lt_of_le bounded far),
      Nat.testBit_lt_two_pow (Nat.lt_of_lt_of_le within far)]

end TerminalSet

end VyperFront
