import VyperFront.Proofs.Expression.Shows

/-! What is written down for an expression can be derived by the grammar, and brings the tree that
the expression stands for. Each level of binding has its phrase, which gives way to that of the
next level, and from the last level parentheses lead back to the first. -/

namespace VyperFront

namespace Level

/-- The phrase for what binds as tightly as the level, or tighter. -/
def phrase : Level → Nonterminal
  | conditional => .test
  | or => .orTest
  | and => .andTest
  | not => .notTest
  | comparison => .comparison
  | bitOr => .expr
  | bitXor => .xorExpr
  | bitAnd => .andExpr
  | shift => .shiftExpr
  | sum => .arithExpr
  | product => .term
  | unary => .factor
  | power => .power
  | external => .prefixedCall
  | primary => .primary

private theorem rank_tighter {l : Level} (looser : l.rank < primary.rank) :
    l.tighter.rank = l.rank + 1 := by
  cases l <;> first | rfl | exact absurd looser (Nat.lt_irrefl _)

theorem rank_le_primary (l : Level) : l.rank ≤ primary.rank := by
  cases l <;> decide

private theorem eq_of_rank {l own : Level} (same : l.rank = own.rank) : l = own := by
  rw [← Level.ofNat_ctorIdx l, ← Level.ofNat_ctorIdx own, ← rank, same]

end Level

variable {tokens first second : List SourceToken} {view : View} {l own : Level}

namespace Shows

private theorem loosen (shows : l.tighter.phrase.Shows tokens view) :
    l.phrase.Shows tokens view := by
  cases l with
  | primary => exact shows
  | _ => exact pass (.one shows) (by decide)

/-- What binds tightly can stand where something looser can. -/
theorem climb (shows : own.phrase.Shows tokens view) (tight : l.rank ≤ own.rank) :
    l.phrase.Shows tokens view := by
  obtain ⟨steps, same⟩ := Nat.exists_eq_add_of_le tight
  induction steps generalizing l with
  | zero =>
    obtain rfl := Level.eq_of_rank same
    exact shows
  | succ steps ih =>
    have next := Level.rank_tighter (l := l) (by have := own.rank_le_primary; omega)
    exact loosen (ih (by omega) (by omega))

/-- In parentheses, an expression binds tighter than any other. -/
theorem parenthesized (shows : own.phrase.Shows tokens view) :
    Level.primary.phrase.Shows (Expression.between .leftParen .rightParen tokens) view := by
  have test : Nonterminal.test.Shows tokens view := climb (l := .conditional) shows (Nat.zero_le _)
  have atom : Nonterminal.atom.Shows _ view :=
    pass (.between .leftParen .rightParen rfl rfl (.one test)) (by decide)
  exact pass (.one atom) (by decide)

theorem placed (shows : own.phrase.Shows tokens view) :
    l.phrase.Shows (Expression.placed l own tokens) view := by
  unfold Expression.placed
  split
  · next tight => exact shows.climb tight
  · exact climb (parenthesized shows) l.rank_le_primary

end Shows

theorem Word.shows (w : Word) : Shows (.terminal .name) [w.token] [.leaf .name w.text] :=
  .token (Lexer.legible_of_name w.named w.free)

namespace Operator

/-- The phrase for operators of the level. -/
def phrase : Operator → Nonterminal
  | or => .orOperator
  | and => .andOperator
  | bitOr => .bitOrOperator
  | bitXor => .bitXorOperator
  | bitAnd => .bitAndOperator
  | shiftLeft | shiftRight => .shiftOperator
  | add | subtract => .addOperator
  | multiply | divide | floorDivide | modulo => .multiplyOperator
  | power => .powerOperator

private theorem shows (o : Operator) :
    o.phrase.Shows [o.terminal.token] (Expression.leafOf o.terminal) :=
  .literals [o.terminal] (by cases o <;> decide) (by cases o <;> decide)

private theorem mem_productions (o : Operator) :
    ⟨o.level.phrase, .node o.nodeKind, [.kept (.nonterminal o.left.phrase),
      .kept (.nonterminal o.phrase), .kept (.nonterminal o.right.phrase)]⟩ ∈
        o.level.phrase.productions := by
  cases o <;> decide

end Operator

namespace Expression

/-- The grammar derives the phrase of the expression's level to what is written down. -/
def Derived (e : Expression) : Prop := e.level.phrase.Shows e.tokens e.view

variable {e f left right : Expression} {items rest : List Expression}
  {pairs : List (Expression × Expression)} {arguments : List (Option Word × Expression)}
  {links : List (Comparator × Expression)} {word : Word}

namespace Derived

theorem placed (derived : e.Derived) (l : Level) :
    l.phrase.Shows (Expression.placed l e.level e.tokens) e.view :=
  Shows.placed derived

private theorem atom (shows : Nonterminal.atom.Shows tokens view) :
    Level.primary.phrase.Shows tokens view :=
  .pass (.one shows) (by decide)

theorem name (w : Word) : (name w).Derived :=
  atom (.pass (.one w.shows) (by decide))

private theorem literals_atoms : (Lexer.numbersAndStrings.all fun entry =>
    entry.1 = .newline ||
      decide (⟨.atom, .pass, [.kept (.terminal entry.1)]⟩ ∈ Nonterminal.atom.productions)) =
      true := by
  decide

theorem literal (l : Literal) : (literal l).Derived := by
  obtain ⟨r, listed, whole⟩ := l.whole
  have checked := List.all_eq_true.mp literals_atoms _ listed
  simp only [l.solid, decide_false, Bool.false_or, decide_eq_true_eq] at checked
  exact atom (.pass (.one (.token (Lexer.legible_of_whole listed l.solid whole))) checked)

private theorem constant {kind : NodeKind} {k : Terminal} (spelled : k.spelling?.isSome = true)
    (member : ⟨.atom, .node kind, [.dropped (.terminal k)]⟩ ∈ Nonterminal.atom.productions) :
    Level.primary.phrase.Shows [k.token] (.node kind []) :=
  atom (Shows.phrase (.dropped (.spelled spelled) .nil) member)

private theorem forall_items (each : ∀ e ∈ items, e.Derived) :
    List.Forall₂ Nonterminal.test.Shows (tokensOfItems items) (viewsOfItems items) := by
  induction items with
  | nil => exact .nil
  | cons e rest ih =>
    obtain ⟨here, later⟩ := List.forall_mem_cons.mp each
    exact .cons (here.placed .conditional) (ih later)

private theorem forall_pairs (each : ∀ pair ∈ pairs, pair.1.Derived ∧ pair.2.Derived) :
    List.Forall₂ Nonterminal.pair.Shows (tokensOfPairs pairs) (viewsOfPairs pairs) := by
  induction pairs with
  | nil => exact .nil
  | cons pair rest ih =>
    obtain ⟨key, value⟩ := pair
    obtain ⟨⟨first, second⟩, later⟩ := List.forall_mem_cons.mp each
    have fits := Fits.kept (first.placed .conditional)
      (.dropped (.spelled (k := .colon) rfl) (.one (second.placed .conditional)))
    exact .cons (Shows.node fits (by decide)) (ih later)

private theorem forall_arguments (each : ∀ a ∈ arguments, a.2.Derived) :
    List.Forall₂ Nonterminal.argument.Shows (tokensOfArguments arguments)
      (viewsOfArguments arguments) := by
  induction arguments with
  | nil => exact .nil
  | cons a rest ih =>
    obtain ⟨word, value⟩ := a
    obtain ⟨here, later⟩ := List.forall_mem_cons.mp each
    have positional := Fits.one (here.placed .conditional)
    cases word with
    | none => exact .cons (.pass positional (by decide)) (ih later)
    | some word =>
      have fits := Fits.kept word.shows (.dropped (.spelled (k := .equal) rfl) positional)
      exact .cons (Shows.node fits (by decide)) (ih later)

private theorem comparator_shows (c : Comparator) :
    Shows (.nonterminal .comparisonOperator) (c.terminals.map Terminal.token)
      (c.terminals.map leafOf) :=
  .literals c.terminals (by cases c <;> decide) (by cases c <;> decide)

private theorem link (c : Comparator) (derived : e.Derived) :
    Fits [.kept (.nonterminal .comparisonOperator), .kept (.nonterminal .expr)]
      (c.terminals.map Terminal.token ++ Expression.placed .bitOr e.level e.tokens)
      (c.terminals.map leafOf ++ [e.view]) :=
  .kept (comparator_shows c) (.one (derived.placed .bitOr))

private theorem forall_links (each : ∀ link ∈ links, link.2.Derived) :
    List.Forall₂ (Fits [.kept (.nonterminal .comparisonOperator), .kept (.nonterminal .expr)])
      (tokensOfLinks links) (viewsOfLinks links) := by
  induction links with
  | nil => exact .nil
  | cons next rest ih =>
    obtain ⟨c, e⟩ := next
    obtain ⟨here, later⟩ := List.forall_mem_cons.mp each
    exact .cons (link c here) (ih later)

private theorem lists_tests : Lists .expressionList .moreTests .test :=
  ⟨⟨by decide, by decide⟩, by decide, by decide⟩

private theorem lists_pairs : Lists .pairList .morePairs .pair :=
  ⟨⟨by decide, by decide⟩, by decide, by decide⟩

private theorem lists_arguments : Lists .arguments .moreArguments .argument :=
  ⟨⟨by decide, by decide⟩, by decide, by decide⟩

theorem list (each : ∀ e ∈ items, e.Derived) : (list items).Derived :=
  atom (.enclosed .leftBracket .rightBracket lists_tests rfl rfl rfl (by decide) (by decide)
    (forall_items each))

theorem dictionary (each : ∀ pair ∈ pairs, pair.1.Derived ∧ pair.2.Derived) :
    (dictionary pairs).Derived :=
  atom (.enclosed .leftBrace .rightBrace lists_pairs rfl rfl rfl (by decide) (by decide)
    (forall_pairs each))

theorem tuple (each : ∀ e ∈ items, e.Derived) : (tuple items).Derived := by
  have each := forall_items each
  cases items with
  | nil => exact atom (.plain rfl (.between .leftParen .rightParen rfl rfl .nil) (by decide))
  | cons e rest =>
    cases each with
    | cons first each =>
      have shown : Shows (.nonterminal .tupleItems) _ (Shape.splice.views _) :=
        .tupled lists_tests.toRepeats (by decide) (by decide) first each
      exact atom (.plain rfl (.between .leftParen .rightParen rfl rfl (.one shown)) (by decide))

theorem call (function : f.Derived) (each : ∀ a ∈ arguments, a.2.Derived) :
    (call f arguments).Derived := by
  have listed : Nonterminal.argumentList.Shows _ (.node .argumentList _) :=
    .enclosed .leftParen .rightParen lists_arguments rfl rfl rfl (by decide) (by decide)
      (forall_arguments each)
  have shows : Nonterminal.primary.Shows _ (.node .call _) :=
    .node (.kept (function.placed .primary) (.one listed)) (by decide)
  exact shows

theorem member (object : e.Derived) (w : Word) : (member e w).Derived := by
  have name := Fits.dropped (.spelled (k := .dot) rfl) (.one w.shows)
  have shows : Nonterminal.primary.Shows _ (.node .attributeAccess _) :=
    .node (.kept (object.placed .primary) name) (by decide)
  exact shows

theorem subscript (value : e.Derived) (first : f.Derived) (each : ∀ e ∈ rest, e.Derived) :
    (subscript e f rest).Derived := by
  have listed := Shows.listed lists_tests (first.placed .conditional) (forall_items each)
  have index := Fits.between .leftBracket .rightBracket rfl rfl (.one listed)
  have shows : Nonterminal.primary.Shows _ (.node .subscript _) :=
    .node (.kept (value.placed .primary) index) (by decide)
  have same (i : Nat) (later : 1 ≤ i) : NodeKind.subscript.field? i = some .subscript := by
    cases i with
    | zero => cases later
    | succ i => cases i <;> rfl
  rw [List.singleton_append, View.labelled, View.labelled_eq_map same] at shows
  exact shows

theorem externalCall (value : e.Derived) : (externalCall e).Derived := by
  have shows : Nonterminal.prefixedCall.Shows _ (.node .externalCall _) :=
    .node (.dropped (.spelled (k := .kwExtcall) rfl) (.one (value.placed .primary))) (by decide)
  exact shows

theorem staticCall (value : e.Derived) : (staticCall e).Derived := by
  have shows : Nonterminal.prefixedCall.Shows _ (.node .staticCall _) :=
    .node (.dropped (.spelled (k := .kwStaticcall) rfl) (.one (value.placed .primary))) (by decide)
  exact shows

theorem unary (s : Sign) (argument : e.Derived) : (unary s e).Derived := by
  have sign : Nonterminal.unaryOperator.Shows [s.terminal.token] (leafOf s.terminal) :=
    .literals [s.terminal] (by cases s <;> decide) (by cases s <;> decide)
  have shows : Nonterminal.factor.Shows _ (.node .unaryOperator _) :=
    .node (.kept sign (.one (argument.placed .unary))) (by decide)
  exact shows

theorem binary (o : Operator) (first : left.Derived) (second : right.Derived) :
    (binary o left right).Derived := by
  have shows : o.level.phrase.Shows _ (.node o.nodeKind _) :=
    .node (.kept (first.placed o.left) (.kept o.shows (.one (second.placed o.right))))
      o.mem_productions
  cases o <;> exact shows

theorem not (argument : e.Derived) : (not e).Derived := by
  have shows : Nonterminal.notTest.Shows _ (.node .notOperator _) :=
    .node (.dropped (.spelled (k := .kwNot) rfl) (.one (argument.placed .not))) (by decide)
  exact shows

theorem comparison (first : e.Derived) (c : Comparator) (second : f.Derived)
    (each : ∀ link ∈ links, link.2.Derived) : (comparison e c f links).Derived := by
  have start : Shows (.nonterminal .comparisonTail) _ (Shape.splice.views _) :=
    .phrase (link c second) (by decide)
  have chain := Shows.series (by decide) start (forall_links each)
  have shows : Nonterminal.comparison.Shows _ (.node .comparisonOperator _) :=
    .plain rfl (.kept (first.placed .bitOr) (.one chain)) (by decide)
  simpa [Derived, tokens, view, level, Level.phrase] using shows

theorem conditional {condition : Expression} (first : left.Derived) (decides : condition.Derived)
    (second : right.Derived) : (conditional left condition right).Derived := by
  have otherwise := Fits.dropped (.spelled (k := .kwElse) rfl) (.one (second.placed .conditional))
  have condition := Fits.dropped (.spelled (k := .kwIf) rfl)
    (.kept (decides.placed .or) otherwise)
  have shows : Nonterminal.test.Shows _ (.node .conditionalExpression _) :=
    .node (.kept (first.placed .or) condition) (by decide)
  exact shows

end Derived

/-- The grammar derives what is written down for any expression. -/
theorem derived (e : Expression) : e.Derived := by
  induction e using induct with
  | name w => exact .name w
  | literal l => exact .literal l
  | truth => exact Derived.constant rfl (by decide)
  | falsehood => exact Derived.constant rfl (by decide)
  | ellipsis => exact Derived.constant rfl (by decide)
  | list _ each => exact .list each
  | tuple _ each => exact .tuple each
  | dictionary _ each => exact .dictionary each
  | call _ _ function each => exact .call function each
  | member _ w object => exact .member object w
  | subscript _ _ _ value first each => exact .subscript value first each
  | externalCall _ value => exact .externalCall value
  | staticCall _ value => exact .staticCall value
  | unary s _ argument => exact .unary s argument
  | binary o _ _ first second => exact .binary o first second
  | comparison _ c _ _ first second each => exact .comparison first c second each
  | not _ argument => exact .not argument
  | conditional _ _ _ first decides second => exact .conditional first decides second
  | parenthesized _ inner => exact Shows.parenthesized inner

/-- The grammar derives what is written on a line for any expression. -/
theorem WrittenAs.shows (written : e.WrittenAs tokens) :
    Nonterminal.testlist.Shows tokens e.view := by
  cases written with
  | whole =>
    have test : Nonterminal.test.Shows e.tokens e.view :=
      Shows.climb (l := .conditional) e.derived (Nat.zero_le _)
    exact .pass (.one test) (by decide)
  | bare first rest =>
    have each := Derived.forall_items fun e (_ : e ∈ first :: rest) => e.derived
    cases each with
    | cons first each =>
      have shows : Shows (.nonterminal .testlist) _ ((Shape.node .tuple).views _) :=
        .tupled Derived.lists_tests.toRepeats (by decide) (by decide) first each
      rw [Shape.views, labelled_eq_unlabelled rfl] at shows
      exact shows

end Expression

end VyperFront
