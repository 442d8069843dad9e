import VyperFront.Artifact.Compile
import VyperFront.Parser
import VyperFront.Proofs.Machine.Completeness
import VyperFront.Proofs.Reader

/-! Parsing is sound and complete: a source has a tree just if the grammar derives the
tokens that the layout makes of its lexemes, and then the tree is the one that the
derivation determines. -/

namespace VyperFront

namespace Derivation

variable {d : Derivation} {tokens : List SourceToken}

theorem Derives.exists_root (derives : d.Derives .sourceFile tokens) :
    ∃ extent trees, d.trees = [.node .sourceFile extent trees] := by
  obtain ⟨valid, symbol, _⟩ := derives
  cases valid with
  | token t => cases symbol
  | @phrase p parts member _ _ =>
    have head : p.head = .sourceFile := Symbol.nonterminal.inj symbol
    have nodes : ∀ q ∈ Nonterminal.sourceFile.productions, q.shape = .node .sourceFile := by decide
    have shape := nodes p (head ▸ Grammar.mem_productions.mp member)
    rw [trees, shape]
    exact ⟨_, _, rfl⟩

theorem Derives.exists_trees (derives : d.Derives .sourceFile tokens) :
    ∃ tree, d.trees = [tree] := by
  obtain ⟨_, _, root⟩ := derives.exists_root
  exact ⟨_, root⟩

theorem trees_whole (d : Derivation) : (phrase Grammar.whole [d]).trees = d.trees := by
  simp [trees, treesOf, Grammar.whole, keep]

end Derivation

namespace Reading

variable {r : Reading} {tree : Tree}

/-- The derivation is one of the source: of the tokens that the layout makes of what the
basic lexer reads. -/
def Derived (w : TabWidth) (source : Text) (d : Derivation) : Prop :=
  ∃ tokens, Lexer.Tokenizes .spelled ⟨ended source, .start⟩ tokens ∧
    Layout.failureOf? (Layout.scan w tokens) = none ∧
    d.Derives .sourceFile (Layout.tokensOf (Layout.scan w tokens))

/-- Reading by the basic lexer comes to the fragment of a derivation. -/
theorem read_basic_iff (vyper : r.Vyper) (basic : r.mode = .basic) (source : Text)
    {f : Fragment} :
    (∃ notes, r.read (ended source) = .ok (f, notes)) ↔
      ∃ d, Derived r.tabWidth source d ∧ f = (Derivation.phrase Grammar.whole [d]).fragment := by
  rw [read_eq_ok_iff vyper basic]
  constructor
  · rintro ⟨tokens, tokenizes, silent, whole, accepts, rfl⟩
    obtain ⟨d, derives, rfl⟩ := Stack.accepts_nil_iff.mp accepts
    exact ⟨d, ⟨tokens, tokenizes, silent, derives⟩, rfl⟩
  · rintro ⟨d, ⟨tokens, tokenizes, silent, derives⟩, rfl⟩
    exact ⟨tokens, tokenizes, silent, _, Stack.accepts_nil_iff.mpr ⟨d, derives, rfl⟩, rfl⟩

theorem outcome_eq_ok_iff (source : Text) :
    (r.parseText source).outcome = .ok tree ↔
      ∃ f, (∃ notes, r.read (ended source) = .ok (f, notes)) ∧ treeOf f = tree := by
  rw [parseText]
  dsimp only
  cases r.read (ended source) with
  | error stop => simp
  | ok result =>
    obtain ⟨f, notes⟩ := result
    simp

theorem treeOf_whole (d : Derivation) (trees : d.trees = [tree]) :
    treeOf (Derivation.phrase Grammar.whole [d]).fragment = tree := by
  have whole : (Derivation.phrase Grammar.whole [d]).fragment.trees = [tree] :=
    (Derivation.trees_whole d).trans trees
  rw [treeOf, whole]
  rfl

/-- A source has a tree by the basic lexer just if it has a derivation. -/
theorem parseText_basic_iff (vyper : r.Vyper) (basic : r.mode = .basic) (source : Text) :
    (r.parseText source).outcome = .ok tree ↔
      ∃ d, Derived r.tabWidth source d ∧ d.trees = [tree] := by
  simp only [outcome_eq_ok_iff, read_basic_iff vyper basic]
  constructor
  · rintro ⟨_, ⟨d, derived, rfl⟩, same⟩
    obtain ⟨_, _, _, derives⟩ := id derived
    obtain ⟨other, trees⟩ := derives.exists_trees
    rw [treeOf_whole d trees] at same
    exact ⟨d, derived, same ▸ trees⟩
  · rintro ⟨d, derived, trees⟩
    exact ⟨_, ⟨d, derived, rfl⟩, treeOf_whole d trees⟩

end Reading

theorem Parse.outcome_eq_ok_iff {p : Parse} {tree : Tree} :
    p.errors = [] ∧ p.root = tree ↔ p.outcome = .ok tree := by
  unfold errors root
  cases p.outcome <;> simp

theorem Parser.parse_language_iff (c : Config) (source : Text) (tree : Tree) :
    (∃ p, (Parser.empty.setLanguage (Artifact.language c)).parse (.text source) = .ok p ∧
        p.errors = [] ∧ p.root = tree) ↔
      (Reading.parseText ⟨automaton, c.lexer, c.tabWidth⟩ source).outcome = .ok tree := by
  simp only [Parse.outcome_eq_ok_iff]
  constructor
  · rintro ⟨p, same, outcome⟩
    cases same
    exact outcome
  · exact fun outcome => ⟨_, rfl, outcome⟩

/-- The parser gives a tree just if the lexer reads the source to its end, the layout
does not fail, and the grammar derives a source file to what comes out of it. The tree is
the one that the derivation determines. There is no other derivation. -/
theorem Parser.parse_basic_iff (c : Config) (source : Text) (tree : Tree) :
    ((∃ p, (Parser.empty.setLanguage (Artifact.language { c with lexer := .basic })).parse
        (.text source) = .ok p ∧ p.errors = [] ∧ p.root = tree) ↔
      ∃ (tokens : List SourceToken) (d : Derivation),
        Lexer.Tokenizes .spelled ⟨Reading.ended source, .start⟩ tokens ∧
        Layout.failureOf? (Layout.scan c.tabWidth tokens) = none ∧
        d.Derives .sourceFile (Layout.tokensOf (Layout.scan c.tabWidth tokens)) ∧
        d.trees = [tree]) ∧
    ∀ (tokens : List SourceToken) (d : Derivation), d.Derives .sourceFile tokens →
      (∃ tree, d.trees = [tree]) ∧ ∀ e : Derivation, e.Derives .sourceFile tokens → e = d := by
  constructor
  · rw [Parser.parse_language_iff]
    refine (Reading.parseText_basic_iff (r := ⟨automaton, .basic, c.tabWidth⟩) rfl rfl
      source).trans ⟨?_, ?_⟩
    · rintro ⟨d, ⟨tokens, tokenizes, silent, derives⟩, trees⟩
      exact ⟨tokens, d, tokenizes, silent, derives, trees⟩
    · rintro ⟨tokens, d, tokenizes, silent, derives, trees⟩
      exact ⟨d, ⟨tokens, tokenizes, silent, derives⟩, trees⟩
  · intro tokens d derives
    exact ⟨derives.exists_trees, fun e also => also.unique derives⟩

end VyperFront
