import VyperFront.Proofs.Grammar.Items
import VyperFront.Proofs.Grammar.LineEnd
import VyperFront.Proofs.Reader.Follow

namespace VyperFront

open Layout

variable {d e : Derivation} {tokens others : List SourceToken} {tree also : Tree}

theorem Derivation.Derives.isNamed_tree (derives : d.Derives .sourceFile tokens)
    (trees : d.trees = [tree]) : tree.isNamed = true := by
  rcases derives.cases_sourceFile with rfl | ⟨items, _, _, rfl⟩
  · cases trees
    rfl
  · cases trees
    rfl

/-- Source files of the same kinds of tokens have the same tree, but for the tokens. -/
theorem Derivation.Derives.tree_bare_eq (derives : d.Derives .sourceFile tokens)
    (same : e.Derives .sourceFile others) (kinds : others.map Token.kind = tokens.map Token.kind)
    (trees : d.trees = [tree]) (alsoTrees : e.trees = [also]) :
    also.recast .bare = tree.recast .bare := by
  have bare := congrArg Derivation.trees (derives.bare_eq same kinds)
  rw [same.valid.trees_recast, derives.valid.trees_recast, trees, alsoTrees] at bare
  exact List.singleton_inj.mp bare

theorem Tree.sexp_eq_of_bare (named : tree.isNamed = true)
    (bare : also.recast .bare = tree.recast .bare) : also.sexp = tree.sexp := by
  have alsoNamed : also.isNamed = true := by
    rw [← isNamed_recast (m := .bare), bare, isNamed_recast, named]
  rw [← sexp_recast (m := .bare) named, ← bare, sexp_recast alsoNamed]

theorem Parser.parsed_iff {c : Config} {source : Text} {p : Parse} :
    (Parser.empty.setLanguage (Artifact.language c)).parse (.text source) = .ok p ↔
      p = Reading.parseText ⟨automaton, c.lexer, c.tabWidth⟩ source := by
  constructor
  · intro parsed
    cases parsed
    rfl
  · rintro rfl
    rfl

theorem Parser.eq_parseText {c : Config} {source : Source} {p : Parse}
    (parsed : (Parser.empty.setLanguage (Artifact.language c)).parse source = .ok p)
    (clean : p.errors = []) : p = Reading.parseText ⟨automaton, c.lexer, c.tabWidth⟩ p.text := by
  have same : Reading.parse ⟨automaton, c.lexer, c.tabWidth⟩ source = p := by
    cases parsed
    rfl
  rw [← same] at clean ⊢
  obtain ⟨text, whole⟩ := Reading.exists_parseText clean
  rw [whole, Reading.text_parseText]

namespace Reading

variable {r : Reading} {source other : Text}

/-- A text whose tokens are laid out as tokens of the same kinds is parsed, too, to a tree with the
same S-expression. -/
theorem parseText_of_sameKinds (vyper : r.Vyper) (clean : (r.parseText source).errors = [])
    (reads : r.Reads (ended source) tokens) (also : r.Reads (ended other) others)
    (same : SameKinds (scan r.tabWidth tokens) (scan r.tabWidth others)) :
    (r.parseText other).errors = [] ∧ (r.parseText other).sexp = (r.parseText source).sexp := by
  obtain ⟨known, d, sameTokens, silent, derives, trees⟩ :=
    @exists_derivation _ vyper (.text source) clean
  rw [parse, text_parseText] at sameTokens
  rw [parse] at trees
  obtain rfl := reads.unique sameTokens
  obtain ⟨e, derived⟩ := derives.exists_of_kinds same.kinds
  obtain ⟨tree, found⟩ := derived.exists_trees
  have outcome := parseText_of_reads vyper also (same.fails.mpr silent) derived found
  obtain ⟨clean, root⟩ := Parse.outcome_eq_ok_iff.mpr outcome
  refine ⟨clean, ?_⟩
  rw [Parse.sexp, root, Parse.sexp]
  exact Tree.sexp_eq_of_bare (derives.isNamed_tree trees)
    (derives.tree_bare_eq derived same.kinds trees found)

theorem parseText_of_alike (vyper : r.Vyper) (clean : (r.parseText source).errors = [])
    (reads : r.Reads (ended source) tokens) (also : r.Reads (ended other) others)
    (alike : List.Forall₂ (Alike r.tabWidth) tokens others) :
    (r.parseText other).errors = [] ∧ (r.parseText other).sexp = (r.parseText source).sexp :=
  parseText_of_sameKinds vyper clean reads also (sameKinds_scan alike)

end Reading

/-! Parses by the items of the source: the children of the root are what the items leave, one
after the other. -/

open VyperFront.Derivation

namespace Tree

/-- The S-expressions of the children, each with its field. -/
def childSexps (t : Tree) : List (Option Field × String) :=
  t.children.map fun (field, child) => (field, child.sexp)

variable {trees : List Tree} {extent : Option Extent} {m : Recast}

theorem filter_of_named (named : ∀ t ∈ trees, t.isNamed = true) :
    trees.filter (!·.isGap) = trees := by
  refine List.filter_eq_self.mpr fun t member => ?_
  have named := named t member
  cases t with
  | leaf token => rfl
  | node kind extent trees => rfl
  | gap => cases named

theorem childSexps_sourceFile (named : ∀ t ∈ trees, t.isNamed = true) :
    (node .sourceFile extent trees).childSexps = trees.map fun t => (none, t.sexp) := by
  have children : (node .sourceFile extent trees).childSexps =
      (node .sourceFile extent trees).children.map fun child => (none, child.2.sexp) := by
    refine List.map_congr_left fun child member => ?_
    obtain ⟨_, _, rfl⟩ := List.mem_map.mp member
    rfl
  have snd := @map_snd_children .sourceFile extent trees
  rw [filter_of_named named] at snd
  rw [children]
  conv_rhs => rw [← snd, List.map_map]
  rfl

theorem childSexps_append (first second : Option Extent) {more : List Tree}
    (named : ∀ t ∈ trees, t.isNamed = true) (also : ∀ t ∈ more, t.isNamed = true) :
    (node .sourceFile extent (trees ++ more)).childSexps =
      (node .sourceFile first trees).childSexps ++ (node .sourceFile second more).childSexps := by
  rw [childSexps_sourceFile (List.forall_mem_append.mpr ⟨named, also⟩),
    childSexps_sourceFile named, childSexps_sourceFile also, List.map_append]

theorem forall_isNamed_recast (named : ∀ t ∈ trees, t.isNamed = true) :
    ∀ t ∈ trees.map (recast m), t.isNamed = true :=
  List.forall_mem_map.mpr fun t member => by rw [isNamed_recast, named t member]

theorem childSexps_recast (other : Option Extent) (named : ∀ t ∈ trees, t.isNamed = true) :
    (node .sourceFile other (trees.map (recast m))).childSexps =
      (node .sourceFile extent trees).childSexps := by
  rw [childSexps_sourceFile named, childSexps_sourceFile (forall_isNamed_recast named),
    List.map_map]
  exact List.map_congr_left fun t member => congrArg _ (sexp_recast (named t member))

theorem childSexps_of_bare {also : Tree} (named : ∀ t ∈ trees, t.isNamed = true)
    (bare : also.recast .bare = (node .sourceFile extent trees).recast .bare) :
    also.childSexps = (node .sourceFile extent trees).childSexps := by
  cases also with
  | leaf token => cases bare
  | gap => cases bare
  | node kind before others =>
    rw [recast, recast, recastAll_eq_map, recastAll_eq_map] at bare
    obtain ⟨rfl, _, bare⟩ := Tree.node.inj bare
    have also : ∀ t ∈ others, t.isNamed = true := by
      intro t member
      have inside := List.mem_map_of_mem (f := recast .bare) member
      rw [bare] at inside
      rw [← isNamed_recast (m := .bare)]
      exact forall_isNamed_recast named _ inside
    calc (node .sourceFile before others).childSexps
      _ = (node .sourceFile extent (others.map (recast .bare))).childSexps :=
        (childSexps_recast _ also).symm
      _ = (node .sourceFile extent (trees.map (recast .bare))).childSexps := by rw [bare]
      _ = (node .sourceFile extent trees).childSexps := childSexps_recast _ named

end Tree

namespace Reading

variable {r : Reading} {source : Text} {items : List Derivation}

theorem ended_append {text more : Text} (some : more ≠ []) :
    ended (text ++ more) = text ++ ended more := by
  have last : (text ++ more).endsLine = more.endsLine := by
    rw [Text.endsLine, Text.endsLine, List.getLast?_append_of_ne_nil _ some]
  rw [ended, ended, last]
  split
  · rfl
  · rw [List.append_assoc]

theorem ended_after_feed {before more : Text} (some : more ≠ []) :
    ended (before ++ '\n' :: more) = before ++ '\n' :: ended more := by
  rw [List.append_cons, ended_append some, ← List.append_cons]

theorem head?_ended {text : Text} (some : text ≠ []) : (ended text).head? = text.head? := by
  rw [ended]
  split
  · rfl
  · exact List.head?_append_of_ne_nil _ some

theorem endsLine_ended (source : Text) : (ended source).endsLine = true := by
  rw [ended]
  split
  · next ends => exact ends
  · simp [Text.endsLine]

theorem ended_ne_nil (source : Text) : ended source ≠ [] := by
  rw [ended]
  split
  · next line =>
    rintro rfl
    cases line
  · simp

/-- The items of a source without errors. -/
theorem exists_items (vyper : r.Vyper) (clean : (r.parseText source).errors = []) :
    ∃ (tokens : List SourceToken) (items : List Derivation) (extent : Option Extent),
      r.Reads (ended source) tokens ∧ failureOf? (scan r.tabWidth tokens) = none ∧
      (∀ d ∈ items, d.IsItem) ∧ yields items = tokensOf (scan r.tabWidth tokens) ∧
      (r.parseText source).root = .node .sourceFile extent (items.flatMap shown) := by
  obtain ⟨tokens, d, reads, silent, derives, trees⟩ :=
    @exists_derivation _ vyper (.text source) clean
  obtain ⟨items, extent, all, yields, shown⟩ := derives.exists_items
  rw [parse, text_parseText] at reads
  exact ⟨tokens, items, extent, reads, silent, all, yields,
    List.singleton_inj.mp (trees.symm.trans shown)⟩

theorem parseText_of_items (vyper : r.Vyper) (reads : r.Reads (ended source) tokens)
    (silent : failureOf? (scan r.tabWidth tokens) = none) (all : ∀ d ∈ items, d.IsItem)
    (yields : yields items = tokensOf (scan r.tabWidth tokens)) :
    (r.parseText source).errors = [] ∧
      ∃ extent, (r.parseText source).root = .node .sourceFile extent (items.flatMap shown) := by
  obtain ⟨d, extent, derives, trees⟩ := exists_derives all
  rw [yields] at derives
  have outcome := parseText_of_reads vyper reads silent derives trees
  obtain ⟨clean, root⟩ := Parse.outcome_eq_ok_iff.mpr outcome
  exact ⟨clean, extent, root⟩

/-- A source that is read to tokens of the same kinds as those of items is parsed, too, to the
same tree but for the tokens. -/
theorem parseText_of_kinds (vyper : r.Vyper) (reads : r.Reads (ended source) tokens)
    (silent : failureOf? (scan r.tabWidth tokens) = none) (all : ∀ d ∈ items, d.IsItem)
    (kinds : (tokensOf (scan r.tabWidth tokens)).map Token.kind = (yields items).map Token.kind) :
    (r.parseText source).errors = [] ∧
      ∃ extent, (r.parseText source).root.recast .bare =
        (Tree.node .sourceFile extent (items.flatMap shown)).recast .bare := by
  obtain ⟨d, extent, derives, trees⟩ := exists_derives all
  obtain ⟨e, derived⟩ := derives.exists_of_kinds kinds
  obtain ⟨tree, found⟩ := derived.exists_trees
  have outcome := parseText_of_reads vyper reads silent derived found
  obtain ⟨clean, root⟩ := Parse.outcome_eq_ok_iff.mpr outcome
  exact ⟨clean, extent, root ▸ derives.tree_bare_eq derived kinds trees found⟩

/-- An empty source has no items but the line break that ends it. -/
theorem parseText_nil (vyper : r.Vyper) : (r.parseText []).errors = [] ∧
    ∃ extent, (r.parseText []).root = .node .sourceFile extent [] := by
  let t : SourceToken := ⟨.newline, ['\n'], ⟨.start, ⟨1, 2, 1⟩⟩⟩
  have tokenizes : Lexer.Tokenizes .spelled ⟨ended [], .start⟩ [t] := by
    have first := (@Lexer.piece_eq_newline_iff .spelled _ _ _ (by decide)).mpr
      (show Lexeme.newline ['\n'] = some (['\n'], []) from rfl)
    exact .more (Lexer.next_of_token (c := ⟨['\n'], .start⟩) first) (.done (Lexer.next_of_nil rfl))
  have flat : r.tabWidth.measure (Text.lastLine ['\n']) = 0 := by
    simp [Text.lastLine, TabWidth.measure]
  have laidOut : scan r.tabWidth [t] = [.token t, .note (.found 0 0)] := by
    have role : Kind.role t.kind = .newline := rfl
    simp [scan, scanFrom, step, role, State.start, State.current, indentation, close, isFailure, t,
      flat, Layout.finish]
  obtain ⟨d, extent, derives, trees⟩ := @exists_derives [.token t]
    (List.forall_mem_singleton.mpr (isItem_newline rfl))
  have derived : Derived r.tabWidth [] d := ⟨[t], tokenizes, by rw [laidOut]; rfl, laidOut ▸ derives⟩
  obtain ⟨clean, root⟩ := Parse.outcome_eq_ok_iff.mpr (parseText_of_derived vyper derived trees)
  exact ⟨clean, extent, root⟩

end Reading

end VyperFront
