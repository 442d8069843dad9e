import VyperFront.Proofs.Contextual
import VyperFront.Proofs.Reader.Found

namespace VyperFront

open Layout

namespace Reading

variable {r : Reading}

@[simp] theorem text_parseText (source : Text) : (r.parseText source).text = source := by
  rw [parseText]
  split <;> rfl

/-- A source without errors is a text, or bytes that stand for one. -/
theorem exists_parseText {source : Source} (clean : (r.parse source).errors = []) :
    ∃ text, r.parse source = r.parseText text := by
  cases source with
  | text source => exact ⟨source, rfl⟩
  | bytes bytes =>
    rw [parse] at clean ⊢
    cases decoded : Utf8.decode bytes with
    | error e => simp [decoded, Parse.errors] at clean
    | ok source => exact ⟨source, rfl⟩

/-- A source without errors has a derivation from what the layout makes of its tokens, and
its tree is the one that the derivation determines. -/
theorem exists_derivation (vyper : r.Vyper) {source : Source}
    (clean : (r.parse source).errors = []) :
    ∃ (tokens : List SourceToken) (d : Derivation),
      r.Reads (ended (r.parse source).text) tokens ∧
      failureOf? (scan r.tabWidth tokens) = none ∧
      d.Derives .sourceFile (tokensOf (scan r.tabWidth tokens)) ∧
      d.trees = [(r.parse source).root] := by
  obtain ⟨text, same⟩ := exists_parseText clean
  rw [same] at clean ⊢
  rw [text_parseText]
  obtain ⟨_, ⟨notes, ok⟩, came⟩ :=
    (outcome_eq_ok_iff text).mp (Parse.outcome_eq_ok_iff.mp ⟨clean, rfl⟩)
  obtain ⟨tokens, reads, silent, _, accepts, rfl⟩ := exists_of_read vyper ok
  obtain ⟨d, derives, rfl⟩ := Stack.accepts_nil_iff.mp accepts
  obtain ⟨tree, trees⟩ := derives.exists_trees
  rw [treeOf_whole d trees] at came
  exact ⟨tokens, d, reads, silent, derives, came ▸ trees⟩

theorem parseText_of_derived (vyper : r.Vyper) {source : Text} {d : Derivation} {tree : Tree}
    (derived : Derived r.tabWidth source d) (trees : d.trees = [tree]) :
    (r.parseText source).outcome = .ok tree := by
  obtain ⟨automaton, mode, w⟩ := r
  have basic : (parseText ⟨automaton, .basic, w⟩ source).outcome = .ok tree :=
    (parseText_basic_iff (r := ⟨automaton, .basic, w⟩) vyper rfl source).mpr
      ⟨d, derived, trees⟩
  cases mode with
  | basic => exact basic
  | contextual =>
    obtain ⟨clean, _⟩ := Parse.outcome_eq_ok_iff.mpr basic
    have same := parseText_contextual (r := ⟨automaton, .basic, w⟩) vyper rfl clean
    rw [← same] at basic
    exact basic

/-- Either lexer reads the tokens of a text that has a derivation. -/
theorem reads_of_derives (vyper : r.Vyper) {text : Text} {d : Derivation}
    {tokens : List SourceToken} (tokenizes : Lexer.Tokenizes .spelled ⟨text, .start⟩ tokens)
    (silent : failureOf? (scan r.tabWidth tokens) = none)
    (derives : d.Derives .sourceFile (tokensOf (scan r.tabWidth tokens))) :
    r.Reads text tokens := by
  obtain ⟨automaton, mode, w⟩ := r
  have basic : Reads ⟨automaton, .basic, w⟩ text tokens :=
    reads_of_accepts (r := ⟨automaton, .basic, w⟩) vyper rfl tokenizes silent
      (Stack.accepts_nil_iff.mpr ⟨d, derives, rfl⟩)
  cases mode with
  | basic => exact basic
  | contextual =>
    exact Tokenizes.contextual (r := ⟨automaton, .basic, w⟩) vyper rfl basic .nil rfl

end Reading

namespace Parser

variable {c : Config}

theorem exists_derivation {source : Source} {p : Parse}
    (parsed : (Parser.empty.setLanguage (Artifact.language c)).parse source = .ok p)
    (clean : p.errors = []) :
    ∃ (tokens : List SourceToken) (d : Derivation),
      (Artifact.language c).handle.reading.Reads (Reading.ended p.text) tokens ∧
      failureOf? (scan c.tabWidth tokens) = none ∧
      d.Derives .sourceFile (tokensOf (scan c.tabWidth tokens)) ∧ d.trees = [p.root] := by
  cases parsed
  exact Reading.exists_derivation (r := ⟨automaton, c.lexer, c.tabWidth⟩) rfl clean

theorem exists_parse (c : Config) {source : Text} {d : Derivation} {tree : Tree}
    (derived : Reading.Derived c.tabWidth source d) (trees : d.trees = [tree]) :
    ∃ p, (Parser.empty.setLanguage (Artifact.language c)).parse (.text source) = .ok p ∧
      p.errors = [] ∧ p.root = tree ∧ p.text = source := by
  have outcome := Reading.parseText_of_derived (r := ⟨automaton, c.lexer, c.tabWidth⟩) rfl
    derived trees
  obtain ⟨clean, root⟩ := Parse.outcome_eq_ok_iff.mpr outcome
  exact ⟨_, rfl, clean, root, Reading.text_parseText source⟩

/-! A source over two lines: the tokens that are read in it, and what they derive from. -/

namespace Sample

/-- A condition and what is to be done under it. -/
def lines : Text := "if a:\n b += c\n".toList

/-- What the lexer reads in the lines. -/
def tokens : List SourceToken :=
  [⟨.kwIf, "if".toList, ⟨⟨0, 1, 1⟩, ⟨2, 1, 3⟩⟩⟩,
    ⟨.name, "a".toList, ⟨⟨3, 1, 4⟩, ⟨4, 1, 5⟩⟩⟩,
    ⟨.colon, ":".toList, ⟨⟨4, 1, 5⟩, ⟨5, 1, 6⟩⟩⟩,
    ⟨.newline, "\n ".toList, ⟨⟨5, 1, 6⟩, ⟨7, 2, 2⟩⟩⟩,
    ⟨.name, "b".toList, ⟨⟨7, 2, 2⟩, ⟨8, 2, 3⟩⟩⟩,
    ⟨.plusEqual, "+=".toList, ⟨⟨9, 2, 4⟩, ⟨11, 2, 6⟩⟩⟩,
    ⟨.name, "c".toList, ⟨⟨12, 2, 7⟩, ⟨13, 2, 8⟩⟩⟩,
    ⟨.newline, "\n".toList, ⟨⟨13, 2, 8⟩, ⟨14, 3, 1⟩⟩⟩]

theorem tokenizes : Lexer.Tokenizes .spelled ⟨lines, .start⟩ tokens :=
  Lexer.tokenizes_of_parts rfl rfl rfl

/-- A phrase that passes on the trees of another one. -/
def single (d : Derivation) (n : Nonterminal) : Derivation :=
  .phrase ⟨n, .pass, [.kept d.symbol]⟩ [d]

/-- A phrase that adds the trees of another one. -/
def splice (d : Derivation) (n : Nonterminal) : Derivation :=
  .phrase ⟨n, .splice, [.kept d.symbol]⟩ [d]

/-- An atom as a condition or a value. -/
def lift (atom : Derivation) : Derivation :=
  [.primary, .prefixedCall, .power, .factor, .term, .arithExpr, .shiftExpr, .andExpr, .xorExpr,
    .expr, .comparison, .notTest, .andTest, .orTest, .test].foldl single atom

/-- A name as a condition or a value. -/
def test (name : SourceToken) : Derivation := lift (single (.token name) .atom)

private def assignment : Derivation :=
  .phrase ⟨.augmentedAssignment, .node .augmentedAssignment,
      [.kept (.nonterminal .testlist), .kept (.nonterminal .augmentedOperator),
        .kept (.nonterminal .testlist)]⟩
    [single (test tokens[4]) .testlist, splice (.token tokens[5]) .augmentedOperator,
      single (test tokens[6]) .testlist]

private def block : Derivation :=
  .phrase ⟨.block, .node .block, [.dropped (.terminal .newline), .dropped (.terminal .indent),
      .kept (.nonterminal .statements), .dropped (.terminal .dedent)]⟩
    [.token tokens[3], .token ⟨.indent, " ".toList, tokens[3].place⟩,
      [.statement, .statements].foldl splice
        (.phrase ⟨.simpleStatements, .splice,
            [.kept (.nonterminal .smallStatement), .dropped (.terminal .newline)]⟩
          [splice assignment .smallStatement, .token tokens[7]]),
      .token ⟨.dedent, [], tokens[7].place⟩]

private def conditional : Derivation :=
  .phrase ⟨.ifStatement, .node .ifStatement, [.dropped (.terminal .kwIf),
      .kept (.nonterminal .test), .dropped (.terminal .colon), .kept (.nonterminal .block), .gap]⟩
    [.token tokens[0], test tokens[1], .token tokens[2], block]

def derivation : Derivation :=
  .phrase ⟨.sourceFile, .node .sourceFile, [.kept (.nonterminal .fileItems)]⟩
    [[.compoundStatement, .statement, .fileItems].foldl splice conditional]

/-- What is to be done. The block around it has the line breaks before and after. -/
def change : Tree :=
  .node .augmentedAssignment (some ⟨⟨7, 2, 2⟩, ⟨13, 2, 8⟩⟩)
    [.leaf tokens[4], .leaf tokens[5], .leaf tokens[6]]

def condition : Tree :=
  .node .ifStatement (some ⟨⟨0, 1, 1⟩, ⟨14, 3, 1⟩⟩)
    [.leaf tokens[1], .node .block (some ⟨⟨5, 1, 6⟩, ⟨14, 3, 1⟩⟩) [change], .gap]

def tree : Tree := .node .sourceFile (some ⟨⟨0, 1, 1⟩, ⟨14, 3, 1⟩⟩) [condition]

theorem reads (c : Config) (eight : c.tabWidth = .eight) :
    (Artifact.language c).handle.reading.Reads lines tokens := by
  have silent : failureOf? (scan .eight tokens) = none := by decide
  have derives : derivation.Derives .sourceFile (tokensOf (scan .eight tokens)) :=
    ⟨by decide, rfl, rfl⟩
  rw [← eight] at silent derives
  exact Reading.reads_of_derives (r := ⟨automaton, c.lexer, c.tabWidth⟩) rfl tokenizes silent
    derives

/-- The lines are parsed, with or without the last line break. -/
theorem exists_parse (source : Text) (same : Reading.ended source = lines) :
    ∃ p, (Parser.empty.setLanguage (Artifact.language .default)).parse (.text source) = .ok p ∧
      p.errors = [] ∧ p.root = tree ∧ p.text = source := by
  have derived : Reading.Derived .eight source derivation :=
    ⟨tokens, same ▸ tokenizes, by decide, by decide, rfl, rfl⟩
  exact Parser.exists_parse .default derived rfl

end Sample

end Parser

end VyperFront
