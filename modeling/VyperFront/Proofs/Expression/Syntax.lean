import VyperFront.Lexer
import VyperFront.Proofs.Tree.Recast

/-! Expressions, and how they are written down. Each kind of expression binds as tightly as its
level says, and what binds looser than the place where it stands is put into parentheses.
Parentheses may stand around any other expression, too. -/

namespace VyperFront

/-- How tightly expressions bind, loosest first. -/
inductive Level where
  | conditional | or | and | not | comparison | bitOr | bitXor | bitAnd | shift | sum | product
  | unary | power | external | primary
  deriving DecidableEq

namespace Level

def rank : Level → Nat := Level.ctorIdx

/-- The next level. Nothing binds tighter than the last. -/
def tighter : Level → Level
  | conditional => or
  | or => and
  | and => not
  | not => comparison
  | comparison => bitOr
  | bitOr => bitXor
  | bitXor => bitAnd
  | bitAnd => shift
  | shift => sum
  | sum => product
  | product => unary
  | unary => power
  | power => external
  | external => primary
  | primary => primary

end Level

/-- An operator between two operands. -/
inductive Operator where
  | or | and | bitOr | bitXor | bitAnd | shiftLeft | shiftRight | add | subtract
  | multiply | divide | floorDivide | modulo | power
  deriving DecidableEq

namespace Operator

def terminal : Operator → Terminal
  | or => .kwOr
  | and => .kwAnd
  | bitOr => .bar
  | bitXor => .caret
  | bitAnd => .ampersand
  | shiftLeft => .shiftLeft
  | shiftRight => .shiftRight
  | add => .plus
  | subtract => .minus
  | multiply => .star
  | divide => .slash
  | floorDivide => .doubleSlash
  | modulo => .percent
  | power => .doubleStar

def level : Operator → Level
  | or => .or
  | and => .and
  | bitOr => .bitOr
  | bitXor => .bitXor
  | bitAnd => .bitAnd
  | shiftLeft | shiftRight => .shift
  | add | subtract => .sum
  | multiply | divide | floorDivide | modulo => .product
  | power => .power

/-- How tightly the left operand has to bind. All operators but the power associate to the
left. -/
def left (o : Operator) : Level :=
  if o = power then .external else o.level

/-- How tightly the right operand has to bind. An exponent may have a sign, or be a power. -/
def right (o : Operator) : Level :=
  if o = power then .unary else o.level.tighter

def nodeKind : Operator → NodeKind
  | or | and => .booleanOperator
  | _ => .binaryOperator

end Operator

inductive Sign where
  | plus | minus | invert
  deriving DecidableEq

def Sign.terminal : Sign → Terminal
  | plus => .plus
  | minus => .minus
  | invert => .tilde

inductive Comparator where
  | less | greater | equal | greaterEqual | lessEqual | notEqual | isIn | notIn
  deriving DecidableEq

def Comparator.terminals : Comparator → List Terminal
  | less => [.less]
  | greater => [.greater]
  | equal => [.equalEqual]
  | greaterEqual => [.greaterEqual]
  | lessEqual => [.lessEqual]
  | notEqual => [.notEqual]
  | isIn => [.kwIn]
  | notIn => [.kwNot, .kwIn]

/-- A name that is no keyword. -/
structure Word where
  text : Text
  named : Lexeme.name text = some (text, [])
  free (k : Terminal) : k.isKeyword = true → k.spelling? ≠ some (String.ofList text)

/-- A number or a string: a whole lexeme of its class. -/
structure Literal where
  kind : Terminal
  text : Text
  solid : kind ≠ .newline
  whole : ∃ r, (kind, r) ∈ Lexer.numbersAndStrings ∧ r text = some (text, [])

/-- A token as it is written down, at no place. -/
def written (kind : Terminal) (text : Text) : SourceToken := ⟨kind, text, default, default⟩

/-- The token of a keyword or of punctuation. -/
def Terminal.token (k : Terminal) : SourceToken := written k (k.spelling?.getD "").toList

def Word.token (w : Word) : SourceToken := written .name w.text

def Literal.token (l : Literal) : SourceToken := written l.kind l.text

/-- Expressions with the parentheses that need not be there. A subscript has one index at
least, and a comparison is a chain of one link at least. -/
inductive Expression where
  | name (word : Word)
  | literal (literal : Literal)
  | truth
  | falsehood
  | ellipsis
  | list (items : List Expression)
  | tuple (items : List Expression)
  | dictionary (pairs : List (Expression × Expression))
  | call (function : Expression) (arguments : List (Option Word × Expression))
  | member (object : Expression) (word : Word)
  | subscript (value first : Expression) (rest : List Expression)
  | externalCall (value : Expression)
  | staticCall (value : Expression)
  | unary (sign : Sign) (argument : Expression)
  | binary (operator : Operator) (left right : Expression)
  | comparison (first : Expression) (comparator : Comparator) (second : Expression)
      (rest : List (Comparator × Expression))
  | not (argument : Expression)
  | conditional (consequence condition alternative : Expression)
  | parenthesized (inner : Expression)

namespace Expression

/-- Induction over expressions, with those in lists among the parts. -/
theorem induct {motive : Expression → Prop} (name : ∀ word, motive (name word))
    (literal : ∀ l, motive (literal l)) (truth : motive truth) (falsehood : motive falsehood)
    (ellipsis : motive ellipsis) (list : ∀ items, (∀ e ∈ items, motive e) → motive (list items))
    (tuple : ∀ items, (∀ e ∈ items, motive e) → motive (tuple items))
    (dictionary : ∀ pairs, (∀ pair ∈ pairs, motive pair.1 ∧ motive pair.2) →
      motive (dictionary pairs))
    (call : ∀ function arguments, motive function → (∀ a ∈ arguments, motive a.2) →
      motive (call function arguments))
    (member : ∀ object word, motive object → motive (member object word))
    (subscript : ∀ value first rest, motive value → motive first → (∀ e ∈ rest, motive e) →
      motive (subscript value first rest))
    (externalCall : ∀ value, motive value → motive (externalCall value))
    (staticCall : ∀ value, motive value → motive (staticCall value))
    (unary : ∀ sign argument, motive argument → motive (unary sign argument))
    (binary : ∀ operator left right, motive left → motive right →
      motive (binary operator left right))
    (comparison : ∀ first comparator second rest, motive first → motive second →
      (∀ link ∈ rest, motive link.2) → motive (comparison first comparator second rest))
    (not : ∀ argument, motive argument → motive (not argument))
    (conditional : ∀ consequence condition alternative, motive consequence → motive condition →
      motive alternative → motive (conditional consequence condition alternative))
    (parenthesized : ∀ inner, motive inner → motive (parenthesized inner))
    (e : Expression) : motive e :=
  @Expression.rec motive (fun items => ∀ e ∈ items, motive e)
    (fun pairs => ∀ pair ∈ pairs, motive pair.1 ∧ motive pair.2)
    (fun arguments => ∀ a ∈ arguments, motive a.2) (fun links => ∀ link ∈ links, motive link.2)
    (fun pair => motive pair.1 ∧ motive pair.2) (fun a => motive a.2) (fun link => motive link.2)
    name literal truth falsehood ellipsis list tuple dictionary call member subscript externalCall
    staticCall unary binary comparison not conditional parenthesized (List.forall_mem_nil _)
    (fun _ _ here later => List.forall_mem_cons.mpr ⟨here, later⟩) (List.forall_mem_nil _)
    (fun _ _ here later => List.forall_mem_cons.mpr ⟨here, later⟩) (List.forall_mem_nil _)
    (fun _ _ here later => List.forall_mem_cons.mpr ⟨here, later⟩) (List.forall_mem_nil _)
    (fun _ _ here later => List.forall_mem_cons.mpr ⟨here, later⟩)
    (fun _ _ key value => ⟨key, value⟩) (fun _ _ value => value) (fun _ _ value => value) e

def level : Expression → Level
  | externalCall _ | staticCall _ => .external
  | unary .. => .unary
  | binary o .. => o.level
  | comparison .. => .comparison
  | not _ => .not
  | conditional .. => .conditional
  | _ => .primary

/-- The tokens between two brackets. -/
def between (opener closer : Terminal) (tokens : List SourceToken) : List SourceToken :=
  opener.token :: tokens ++ [closer.token]

/-- The tokens of an expression where it has to bind as tightly as a level. -/
def placed (level own : Level) (tokens : List SourceToken) : List SourceToken :=
  if level.rank ≤ own.rank then tokens else between .leftParen .rightParen tokens

/-- Parts with commas between them. -/
def separated (parts : List (List SourceToken)) : List SourceToken :=
  List.intercalate [Terminal.comma.token] parts

theorem separated_cons (first : List SourceToken) (rest : List (List SourceToken)) :
    separated (first :: rest) = first ++ rest.flatMap (Terminal.comma.token :: ·) := by
  induction rest generalizing first with
  | nil => simp [separated]
  | cons second rest ih =>
    rw [separated, List.intercalate_cons_cons, ← separated, ih]
    simp

mutual

/-- The items of a tuple with commas between them. One item alone has a comma after it. -/
def tupled (parts : List (List SourceToken)) : List SourceToken :=
  separated parts ++ if parts.length = 1 then [Terminal.comma.token] else []

/-- The tokens of an expression as it is written down. -/
def tokens : Expression → List SourceToken
  | name w => [w.token]
  | literal l => [l.token]
  | truth => [Terminal.kwTrue.token]
  | falsehood => [Terminal.kwFalse.token]
  | ellipsis => [Terminal.ellipsis.token]
  | list items => between .leftBracket .rightBracket (separated (tokensOfItems items))
  | tuple items => between .leftParen .rightParen (tupled (tokensOfItems items))
  | dictionary pairs => between .leftBrace .rightBrace (separated (tokensOfPairs pairs))
  | call function arguments =>
    placed .primary function.level function.tokens ++
      between .leftParen .rightParen (separated (tokensOfArguments arguments))
  | member object word =>
    placed .primary object.level object.tokens ++ [Terminal.dot.token, word.token]
  | subscript value first rest =>
    placed .primary value.level value.tokens ++
      between .leftBracket .rightBracket (separated
        (placed .conditional first.level first.tokens :: tokensOfItems rest))
  | externalCall value => Terminal.kwExtcall.token :: placed .primary value.level value.tokens
  | staticCall value =>
    Terminal.kwStaticcall.token :: placed .primary value.level value.tokens
  | unary sign argument => sign.terminal.token :: placed .unary argument.level argument.tokens
  | binary o left right =>
    placed o.left left.level left.tokens ++
      o.terminal.token :: placed o.right right.level right.tokens
  | comparison first comparator second rest =>
    placed .bitOr first.level first.tokens ++
      (comparator.terminals.map Terminal.token ++ placed .bitOr second.level second.tokens ++
        (tokensOfLinks rest).flatten)
  | not argument => Terminal.kwNot.token :: placed .not argument.level argument.tokens
  | conditional consequence condition alternative =>
    placed .or consequence.level consequence.tokens ++
      (Terminal.kwIf.token :: placed .or condition.level condition.tokens ++
        Terminal.kwElse.token :: placed .conditional alternative.level alternative.tokens)
  | parenthesized inner => between .leftParen .rightParen inner.tokens

def tokensOfItems : List Expression → List (List SourceToken)
  | [] => []
  | e :: rest => placed .conditional e.level e.tokens :: tokensOfItems rest

def tokensOfPairs : List (Expression × Expression) → List (List SourceToken)
  | [] => []
  | (key, value) :: rest =>
    (placed .conditional key.level key.tokens ++
      Terminal.colon.token :: placed .conditional value.level value.tokens) :: tokensOfPairs rest

def tokensOfArguments : List (Option Word × Expression) → List (List SourceToken)
  | [] => []
  | (none, value) :: rest =>
    placed .conditional value.level value.tokens :: tokensOfArguments rest
  | (some word, value) :: rest =>
    (word.token :: Terminal.equal.token :: placed .conditional value.level value.tokens) ::
      tokensOfArguments rest

def tokensOfLinks : List (Comparator × Expression) → List (List SourceToken)
  | [] => []
  | (comparator, e) :: rest =>
    (comparator.terminals.map Terminal.token ++ placed .bitOr e.level e.tokens) ::
      tokensOfLinks rest

end

/-- The tokens of an expression that stands on a line of its own. The parentheses around a tuple
that is not empty need not be written there. -/
inductive WrittenAs : Expression → List SourceToken → Prop where
  | whole (e : Expression) : WrittenAs e e.tokens
  | bare (first : Expression) (rest : List Expression) :
    WrittenAs (tuple (first :: rest)) (tupled (tokensOfItems (first :: rest)))

/-- A keyword or punctuation as a leaf. -/
def leafOf (k : Terminal) : View := .leaf k (k.spelling?.getD "").toList

/-- Children that stand in no field. -/
def unlabelled (views : List View) : List (Option Field × View) := views.map (none, ·)

mutual

/-- The tree that an expression stands for. -/
def view : Expression → View
  | name w => .leaf .name w.text
  | literal l => .leaf l.kind l.text
  | truth => .node .trueLiteral []
  | falsehood => .node .falseLiteral []
  | ellipsis => .node .ellipsis []
  | list items => .node .list (unlabelled (viewsOfItems items))
  | tuple items => .node .tuple (unlabelled (viewsOfItems items))
  | dictionary pairs => .node .dictionary (unlabelled (viewsOfPairs pairs))
  | call function arguments =>
    .node .call [(some .function, function.view),
      (some .arguments, .node .argumentList (unlabelled (viewsOfArguments arguments)))]
  | member object word =>
    .node .attributeAccess
      [(some .object, object.view), (some .attributeName, .leaf .name word.text)]
  | subscript value first rest =>
    .node .subscript ((some .value, value.view) ::
      (first.view :: viewsOfItems rest).map (some .subscript, ·))
  | externalCall value => .node .externalCall [(some .call, value.view)]
  | staticCall value => .node .staticCall [(some .call, value.view)]
  | unary sign argument =>
    .node .unaryOperator
      [(some .operator, leafOf sign.terminal), (some .argument, argument.view)]
  | binary o left right =>
    .node o.nodeKind
      [(some .left, left.view), (some .operator, leafOf o.terminal), (some .right, right.view)]
  | comparison first comparator second rest =>
    .node .comparisonOperator (unlabelled (first.view ::
      comparator.terminals.map leafOf ++ second.view :: (viewsOfLinks rest).flatten))
  | not argument => .node .notOperator [(some .argument, argument.view)]
  | conditional consequence condition alternative =>
    .node .conditionalExpression
      [(some .consequence, consequence.view), (some .condition, condition.view),
        (some .alternative, alternative.view)]
  | parenthesized inner => inner.view

def viewsOfItems : List Expression → List View
  | [] => []
  | e :: rest => e.view :: viewsOfItems rest

def viewsOfPairs : List (Expression × Expression) → List View
  | [] => []
  | (key, value) :: rest =>
    .node .pair [(some .key, key.view), (some .value, value.view)] :: viewsOfPairs rest

def viewsOfArguments : List (Option Word × Expression) → List View
  | [] => []
  | (none, value) :: rest => value.view :: viewsOfArguments rest
  | (some word, value) :: rest =>
    .node .keywordArgument [(some .name, .leaf .name word.text), (some .value, value.view)] ::
      viewsOfArguments rest

def viewsOfLinks : List (Comparator × Expression) → List (List View)
  | [] => []
  | (comparator, e) :: rest =>
    (comparator.terminals.map leafOf ++ [e.view]) :: viewsOfLinks rest

end

end Expression

end VyperFront
