import VyperFront.Proofs.Parser.Derivation
import VyperFront.Proofs.Tree.Kept

namespace VyperFront

open Layout

namespace Tree

/-- The leaves with a kind of their own, in preorder: names, numbers and strings. -/
def namedLeaves (t : Tree) : List Tree := t.nodes.filter fun s => s.token?.isSome && s.isNamed

theorem namedLeaves_eq (t : Tree) :
    t.namedLeaves = (t.leaves.filter (·.kind.isNamed)).map leaf := by
  rw [namedLeaves, leaves]
  induction t.nodes with
  | nil => rfl
  | cons s rest ih =>
    cases s with
    | node kind extent trees => exact ih
    | gap => exact ih
    | leaf token =>
      have leaf : (leaf token :: rest).filterMap token? = token :: rest.filterMap token? := rfl
      have named : (Tree.leaf token).isNamed = token.kind.isNamed := rfl
      rw [leaf, List.filter_cons, List.filter_cons, apply_ite (List.map Tree.leaf), ih, named]
      rfl

/-- What a leaf with a kind of its own tells of its token. -/
theorem map_leaf_eq (length : Nat) (tokens : List SourceToken) :
    ((tokens.filter (·.kind.isNamed)).map fun token =>
        ((leaf token).type, (leaf token).startOffset, (leaf token).endOffset length)) =
      tokens.filterMap fun token => (NodeKind.ofTerminal? token.kind).map fun kind =>
        (kind.text, token.place.start.offset, token.place.stop.offset) := by
  induction tokens with
  | nil => rfl
  | cons token rest ih =>
    rw [List.filter_cons, List.filterMap_cons, Terminal.isNamed, ← ih]
    cases named : NodeKind.ofTerminal? token.kind with
    | none => rfl
    | some kind =>
      have type : (leaf token).type = kind.text := by rw [Tree.type, named]
      rw [Option.map_some, ← type]
      rfl

end Tree

theorem Terminal.plain_of_isNamed {t : SourceToken} (named : t.kind.isNamed = true) :
    Kind.role t.kind ≠ .newline ∧ ¬ Added t := by
  have plain : ∀ kind ∈ Terminal.all, kind.isNamed = true →
      Kind.role kind ≠ .newline ∧ ¬ (kind = .indent ∨ kind = .dedent) := by decide
  exact plain t.kind t.kind.mem_all named

/-- The named leaves of a tree are all the tokens of its source that have a kind of their own,
as they were read, one by one. All leaves come from the tokens that the layout gives on, in
their order, and none is a line break, an indent or a dedent. -/
theorem Parser.parse_leaves {c : Config} {source : Source} {p : Parse}
    (parsed : (Parser.empty.setLanguage (Artifact.language c)).parse source = .ok p)
    (clean : p.errors = []) :
    ∃ tokens : List SourceToken,
      (∀ others, (Artifact.language c).handle.reading.Reads (Reading.ended p.text) others ↔
        others = tokens) ∧
      p.root.namedLeaves = (tokens.filter (·.kind.isNamed)).map .leaf ∧
      (p.root.namedLeaves.map fun t => (t.type, t.startOffset, t.endOffset p.text.length)) =
        (tokens.filterMap fun token => (NodeKind.ofTerminal? token.kind).map fun kind =>
          (kind.text, token.place.start.offset, token.place.stop.offset)) ∧
      p.root.leaves.Sublist (tokensOf (scan c.tabWidth tokens)) ∧
      ∀ token ∈ p.root.leaves,
        token.kind ≠ .newline ∧ token.kind ≠ .indent ∧ token.kind ≠ .dedent := by
  obtain ⟨tokens, d, reads, silent, ⟨valid, symbol, yield⟩, trees⟩ :=
    Parser.exists_derivation parsed clean
  have thins := valid.thins
  rw [trees, yield, Tree.leavesOf_singleton] at thins
  have named : p.root.namedLeaves = (tokens.filter (·.kind.isNamed)).map .leaf := by
    rw [Tree.namedLeaves_eq, thins.filter_eq,
      scan, filter_scanFrom (fun _ => Terminal.plain_of_isNamed) silent]
  refine ⟨tokens, fun others => ⟨reads.unique, fun same => same ▸ reads⟩, named, ?_, thins.sublist,
    fun token member => ?_⟩
  · rw [named, List.map_map]
    exact Tree.map_leaf_eq p.text.length tokens
  · have leaf := valid.canBeLeaf (fun t terminal => by rw [symbol] at terminal; cases terminal)
    rw [trees, Tree.leavesOf_singleton] at leaf
    exact Terminal.not_layout_of_canBeLeaf (leaf token member)

theorem Parser.parse_leaves_lines : ∃ p : Parse,
    (Parser.empty.setLanguage (Artifact.language .default)).parse (.text Sample.lines) = .ok p ∧
      p.errors = [] ∧ p.root = Sample.tree ∧
      ∃ tokens : List SourceToken,
        (∀ others, (Artifact.language .default).handle.reading.Reads (Reading.ended p.text) others ↔
          others = tokens) ∧
        p.root.namedLeaves = (tokens.filter (·.kind.isNamed)).map .leaf ∧
        (p.root.namedLeaves.map fun t => (t.type, t.startOffset, t.endOffset p.text.length)) =
          (tokens.filterMap fun token => (NodeKind.ofTerminal? token.kind).map fun kind =>
            (kind.text, token.place.start.offset, token.place.stop.offset)) ∧
        p.root.leaves.Sublist (tokensOf (scan .eight tokens)) ∧
        ∀ token ∈ p.root.leaves,
          token.kind ≠ .newline ∧ token.kind ≠ .indent ∧ token.kind ≠ .dedent := by
  obtain ⟨p, parsed, clean, root, _⟩ := Sample.exists_parse Sample.lines rfl
  exact ⟨p, parsed, clean, root, parse_leaves parsed clean⟩

end VyperFront
