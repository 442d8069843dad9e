import VyperFront.Proofs.Expression.Derivation
import VyperFront.Proofs.Lexeme.Literal
import VyperFront.Proofs.Statement
import VyperFront.Proofs.Tree.Geometry

/-! Literals are single leaves. A name, an equals sign and a literal are parsed to an assignment
whose right side is one leaf: the literal as it is written. -/

namespace VyperFront

open Lexeme

namespace Tree

variable {t : Tree} {kind : NodeKind}

theorem exists_leaf_of_view {k : Terminal} {text : Text} (view : t.view = .leaf k text) :
    ∃ token, t = leaf token ∧ token.kind = k ∧ token.text = text := by
  cases t with
  | leaf token =>
    obtain ⟨rfl, rfl⟩ := View.leaf.inj view
    exact ⟨token, rfl, rfl, rfl⟩
  | node kind extent trees => cases view
  | gap => cases view

theorem children_of_view {views : List (Option Field × View)} (view : t.view = .node kind views)
    (understood : kind ≠ .error) :
    t.isGap = false ∧ t.kind? = some kind ∧
      t.children.map (fun child => (child.1, child.2.view)) = views := by
  cases t with
  | leaf token => cases view
  | node own extent trees =>
    rw [view_node] at view
    obtain ⟨rfl, same⟩ := View.node.inj view
    exact ⟨rfl, rfl, same⟩
  | gap =>
    obtain ⟨rfl, _⟩ := View.node.inj view
    exact absurd rfl understood

end Tree

/-- The tokens of an assignment of a literal to a name. -/
def Literal.assignment (w : Word) (l : Literal) : List SourceToken :=
  [w.token, Terminal.equal.token, l.token]

theorem Literal.assignment_shows (w : Word) (l : Literal) :
    Nonterminal.smallStatement.Shows (l.assignment w) (.node .assignment
      [(some .left, .leaf .name w.text), (some .right, .leaf l.kind l.text)]) := by
  have line (e : Expression) : Nonterminal.testlist.Shows e.tokens e.view :=
    (Expression.WrittenAs.whole e).shows
  have values : Shows (.nonterminal .assignedValues) _ (Shape.splice.views _) :=
    .phrase (.dropped (.spelled (k := .equal) rfl) (.one (line (.literal l)))) (by decide)
  have assignment : Nonterminal.assignment.Shows _ (.node .assignment _) :=
    .node (.kept (line (.name w)) (.one values)) (by decide)
  have small : Shows (.nonterminal .smallStatement) _ (Shape.splice.views _) :=
    .phrase (.one assignment) (by decide)
  exact small

private theorem literals_other : (Lexer.numbersAndStrings.all fun entry =>
    entry.1 = .newline || decide (Layout.Kind.role entry.1 = .other)) = true := by
  decide

/-- No bracket is opened by a literal, whatever it holds. -/
theorem Literal.assignment_brackets (w : Word) (l : Literal) :
    Brackets 0 ((l.assignment w).map Token.kind) 0 := by
  obtain ⟨r, listed, _⟩ := l.whole
  have checked := List.all_eq_true.mp literals_other _ listed
  simp only [l.solid, decide_false, Bool.false_or, decide_eq_true_eq] at checked
  exact .other rfl (.other rfl (.other checked (.nil 0)))

namespace Parser

variable {kind : NodeKind} {text source : Text} {c : Config} {p : Parse}

/-- The name on the left of the assignment. -/
def assigned : Word := ⟨['x'], by decide, fun k => by cases k <;> decide⟩

/-- The source file that holds one assignment, of a literal to that name. -/
def assignmentFile (l : Literal) : View :=
  .node .sourceFile [(none, .node .assignment
    [(some .left, .leaf .name assigned.text), (some .right, .leaf l.kind l.text)])]

theorem exists_parse_assignment (c : Config) (l : Literal)
    (line : source = "x = ".toList ++ l.text ∨ source = "x = ".toList ++ l.text ++ ['\n']) :
    ∃ p : Parse, (Parser.empty.setLanguage (Artifact.language c)).parse (.text source) = .ok p ∧
      p.errors = [] ∧ p.text = source ∧ p.root.view = assignmentFile l := by
  have shows := l.assignment_shows assigned
  have written : spaced (l.assignment assigned) = "x = ".toList ++ l.text := by
    rw [Literal.assignment, Lexer.spaced_cons_cons, Lexer.spaced_cons_cons, spaced,
      List.map_singleton, List.intercalate_singleton]
    rfl
  have legible : ∀ t ∈ l.assignment assigned, t.Legible :=
    fun t member => (shows.legible t member).1
  have ends : Reading.ended source = spaced (l.assignment assigned) ++ ['\n'] := by
    rcases line with rfl | rfl
    · rw [← written]
      exact Reading.ended_spaced legible (List.cons_ne_nil _ _)
    · rw [written]
      exact if_pos (by rw [Text.endsLine, List.getLast?_concat, beq_self_eq_true])
  obtain ⟨d, tree, derived, trees, view⟩ := exists_derived_line c.tabWidth shows
    (List.cons_ne_nil _ _) (l.assignment_brackets assigned) ends
  obtain ⟨p, parsed, clean, rfl, same⟩ := Parser.exists_parse c derived trees
  exact ⟨p, parsed, clean, same, view⟩

/-- A literal in one of its forms, written after `x = `, is parsed by either lexer to a single
assignment, with or without a line break at the end. The right side of it is a leaf of the kind of
the literal, whose text is the literal. -/
theorem parses_literal (c : Config) (form : LiteralForm kind text)
    (line : source = "x = ".toList ++ text ∨ source = "x = ".toList ++ text ++ ['\n']) :
    ∃ (p : Parse) (assignment left right : Tree),
      (Parser.empty.setLanguage (Artifact.language c)).parse (.text source) = .ok p ∧
      p.errors = [] ∧
      p.root.kind? = some .sourceFile ∧ p.root.children = [(none, assignment)] ∧
      assignment.kind? = some .assignment ∧
      assignment.children = [(some .left, left), (some .right, right)] ∧
      (∃ token, right = .leaf token ∧ token.text = text) ∧
      right.textIn source = text ∧ right.kind? = some kind := by
  obtain ⟨k, r, listed, solid, named, read⟩ := form.readWhole
  obtain ⟨p, parsed, clean, same, view⟩ :=
    exists_parse_assignment c ⟨k, text, solid, r, listed, read⟩ line
  obtain ⟨top, isFile, inFile⟩ := Tree.children_of_view view nofun
  obtain ⟨⟨_, assignment⟩, single, shown⟩ := List.map_eq_singleton_iff.mp inFile
  obtain ⟨rfl, assigns⟩ := Prod.mk.inj shown
  obtain ⟨_, isAssignment, sides⟩ := Tree.children_of_view assigns nofun
  obtain ⟨⟨_, left⟩, _, both, first, rest⟩ := List.map_eq_cons_iff.mp sides
  obtain ⟨⟨_, right⟩, rfl, second⟩ := List.map_eq_singleton_iff.mp rest
  obtain ⟨rfl, _⟩ := Prod.mk.inj first
  obtain ⟨rfl, literal⟩ := Prod.mk.inj second
  obtain ⟨token, rfl, kinds, texts⟩ := Tree.exists_leaf_of_view literal
  have here : (none, assignment) ∈ p.root.children := single ▸ List.mem_singleton_self _
  have there : (some .right, .leaf token) ∈ assignment.children :=
    both ▸ List.mem_cons_of_mem _ (List.mem_singleton_self _)
  have inside := Tree.mem_nodes_of_child (Tree.mem_nodes_self top) here
  have member := Tree.mem_nodes_of_child inside there
  refine ⟨p, assignment, left, .leaf token, parsed, clean, isFile, single, isAssignment, both,
    ⟨token, rfl, texts⟩, ?_, ?_⟩
  · exact same ▸ (Parser.textIn_leaf parsed clean member).trans texts
  · rw [Tree.kind?, kinds, named]

/-- The text of a block: a line break, a comment sign and a bracket within triple quotes. -/
theorem parses_literal_block :
    LiteralForm .string "\"\"\"\n # (\n\"\"\"".toList ∧
    ∃ (p : Parse) (assignment left right : Tree),
      (Parser.empty.setLanguage (Artifact.language .default)).parse
        (.text "x = \"\"\"\n # (\n\"\"\"".toList) = .ok p ∧
      p.errors = [] ∧
      p.root.kind? = some .sourceFile ∧ p.root.children = [(none, assignment)] ∧
      assignment.kind? = some .assignment ∧
      assignment.children = [(some .left, left), (some .right, right)] ∧
      (∃ token, right = .leaf token ∧ token.text = "\"\"\"\n # (\n\"\"\"".toList) ∧
      right.textIn "x = \"\"\"\n # (\n\"\"\"".toList = "\"\"\"\n # (\n\"\"\"".toList ∧
      right.kind? = some .string := by
  have block : Quotation ([] ++ ['"', '"', '"'] ++ "\n # (\n".toList ++ ['"', '"', '"']) :=
    .long .none (.inl rfl) (by decide) (by decide) (by decide)
  exact ⟨.string block, parses_literal .default (.string block) (.inl rfl)⟩

end Parser

end VyperFront
