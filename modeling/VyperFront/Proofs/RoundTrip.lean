import VyperFront.Proofs.Expression.Derivation
import VyperFront.Proofs.Statement

/-! Expressions that are written down are read back. A line with the tokens of an expression, and
single spaces between them, is parsed to a source file with an expression statement in it, whose
child is the tree of the expression. -/

namespace VyperFront

variable {e : Expression} {tokens : List SourceToken} {view : View}

/-- What a source file shows that has nothing in it but an expression. -/
def View.line (expression : View) : View :=
  .node .sourceFile [(none, .node .expressionStatement [(none, expression)])]

private theorem smallStatement_shows (shows : Nonterminal.testlist.Shows tokens view) :
    Nonterminal.smallStatement.Shows tokens (.node .expressionStatement [(none, view)]) := by
  have statement : Nonterminal.expressionStatement.Shows tokens (.node .expressionStatement _) :=
    .plain rfl (.one shows) (by decide)
  have small : Shows (.nonterminal .smallStatement) tokens (Shape.splice.views _) :=
    .phrase (.one statement) (by decide)
  exact small

private theorem testlist_onset :
    (Onset.ofSymbol Grammar.onsets (.nonterminal .testlist)).empty = false := by
  decide +kernel

/-- What shows a tree has a token at least, and all brackets are closed after it. -/
private theorem line_of_shows (shows : Nonterminal.testlist.Shows tokens view) :
    tokens ≠ [] ∧ Brackets 0 (tokens.map Token.kind) 0 := by
  obtain ⟨d, valid, symbol, rfl, _⟩ := shows.derived
  refine ⟨fun none => ?_, valid.brackets symbol (by decide) 0⟩
  have covers := valid.covers
  rw [none, symbol] at covers
  exact Bool.noConfusion (testlist_onset.symm.trans covers)

private theorem exists_derived (w : TabWidth) (shows : Nonterminal.testlist.Shows tokens view) :
    ∃ d tree, Reading.Derived w (spaced tokens) d ∧ d.trees = [tree] ∧ tree.view = view.line := by
  obtain ⟨some, brackets⟩ := line_of_shows shows
  have legible : ∀ t ∈ tokens, t.Legible := fun t member => (shows.legible t member).1
  exact exists_derived_line w (smallStatement_shows shows) some brackets
    (Reading.ended_spaced legible some)

/-- A line with the tokens of an expression, and single spaces between them, is parsed to a source
file with an expression statement, whose child is the tree of the expression. -/
theorem Parser.parses_written (c : Config) (written : e.WrittenAs tokens) :
    ∃ p, (Parser.empty.setLanguage (Artifact.language c)).parse (.text (spaced tokens)) = .ok p ∧
      p.errors = [] ∧ p.root.view =
        .node .sourceFile [(none, .node .expressionStatement [(none, e.view)])] := by
  obtain ⟨d, tree, derived, trees, view⟩ := exists_derived c.tabWidth written.shows
  obtain ⟨p, parsed, clean, root, _⟩ := Parser.exists_parse c derived trees
  exact ⟨p, parsed, clean, root ▸ view⟩

namespace Expression.Sample

def a : Word := ⟨['a'], by decide, fun k => by cases k <;> decide⟩

def b : Word := ⟨['b'], by decide, fun k => by cases k <;> decide⟩

/-- A sum as a factor. -/
def product : Expression := .binary .multiply (.binary .add (.name a) (.name b)) (.name a)

end Expression.Sample

open Expression.Sample in
/-- A sum is put into parentheses to be a factor, and read back as one. -/
theorem Parser.parses_written_product :
    product.WrittenAs product.tokens ∧ spaced product.tokens = "( a + b ) * a".toList ∧
    ∃ p, (Parser.empty.setLanguage (Artifact.language .default)).parse
        (.text "( a + b ) * a".toList) = .ok p ∧ p.errors = [] ∧
      p.root.view = .node .sourceFile [(none, .node .expressionStatement [(none, product.view)])] :=
  ⟨.whole product, rfl, Parser.parses_written .default (.whole product)⟩

end VyperFront
