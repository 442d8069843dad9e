import Mathlib.Logic.Basic
import VyperFront.Outline.Declaration
import VyperFront.Parser
import VyperFront.Proofs.Lexer.Spelled
import VyperFront.Proofs.Parser.Derivation
import VyperFront.Proofs.Text.Mended
import VyperFront.Proofs.Tree.Kept
import VyperFront.Tree.Basic

/-! Every source has an outcome. It is understood, and then no node of its tree is an error, or
it has one error, and then the tree is a single node that stands for all of it. -/

namespace VyperFront

open Layout

/-- The text of a source. Of bytes it is what mending them brings. -/
def Source.HasText : Source → Text → Prop
  | .text source, t => t = source
  | .bytes raw, t => Utf8.Mended raw t

namespace Parse

/-- A source that was understood, with no error in it. -/
structure Understood (p : Parse) : Prop where
  errors : p.errors = []
  root : p.root.kind? = some .sourceFile
  clean : ∀ t ∈ p.root.nodes, t.type ≠ "ERROR" ∧ t.hasError = false

/-- A source that was not understood, for one reason. -/
structure Failed (p : Parse) : Prop where
  errors : ∃ e, p.errors = [e]
  root : p.root.type = "ERROR"
  leaf : p.root.children = []
  extent : (p.root.startOffset, p.root.endOffset p.text.length) = (0, p.text.length)
  sexp : p.sexp = "(ERROR)"
  hasError : p.root.hasError = true
  outline : p.outline = []

variable {p : Parse} {e : SyntaxError}

theorem failed_of_error (fails : p.outcome = .error e) : p.Failed := by
  have root : p.root = .node .error none [] := by rw [Parse.root, fails]
  refine ⟨⟨e, ?_⟩, ?_, ?_, ?_, ?_, ?_, ?_⟩
  · rw [errors, fails]
  · rw [root]; rfl
  · rw [root]; rfl
  · rw [root]; rfl
  · rw [sexp, root]; rfl
  · rw [root]; rfl
  · rw [outline, fails]

theorem Understood.not_failed (understood : p.Understood) : ¬ p.Failed := by
  rintro ⟨⟨e, one⟩, _⟩
  rw [understood.errors] at one
  cases one

end Parse

theorem NodeKind.text_ne_error {kind : NodeKind} (other : kind ≠ .error) :
    kind.text ≠ "ERROR" := by
  have texts : ∀ kind ∈ all, kind ≠ .error → kind.text ≠ "ERROR" := by decide
  exact texts kind kind.mem_all other

namespace Terminal

theorem ofTerminal?_ne_error (t : Terminal) : NodeKind.ofTerminal? t ≠ some .error := by
  have kinds : ∀ t ∈ all, NodeKind.ofTerminal? t ≠ some .error := by decide
  exact kinds t t.mem_all

theorem spelling?_ne_error (t : Terminal) : t.spelling? ≠ some "ERROR" := by
  have spellings : ∀ t ∈ all, t.spelling? ≠ some "ERROR" := by decide
  exact spellings t t.mem_all

end Terminal

namespace Tree

variable {t : Tree} {token : SourceToken} {trees : List Tree}

/-- A token that can be a leaf has a kind, or the text of a keyword or of punctuation. -/
theorem type_leaf_cases (leaf : token.kind.canBeLeaf = true) (spelled : token.Spelled) :
    (∃ kind, NodeKind.ofTerminal? token.kind = some kind ∧ (Tree.leaf token).type = kind.text) ∨
      token.kind.spelling? = some (Tree.leaf token).type := by
  rw [type]
  split
  · next kind named => exact .inl ⟨kind, named, rfl⟩
  · next unnamed =>
    right
    rw [Terminal.canBeLeaf, Terminal.isKept, unnamed, Option.isSome_none, Bool.false_or,
      Bool.true_and] at leaf
    obtain ⟨spelling, same⟩ := Option.isSome_iff_exists.mp leaf
    rw [spelled spelling same, String.ofList_toList, same]

theorem type_leaf_ne_error (leaf : token.kind.canBeLeaf = true) (spelled : token.Spelled) :
    (Tree.leaf token).type ≠ "ERROR" := by
  rcases type_leaf_cases leaf spelled with ⟨kind, named, type⟩ | unnamed
  · rw [type]
    exact NodeKind.text_ne_error fun same => token.kind.ofTerminal?_ne_error (same ▸ named)
  · exact fun error => token.kind.spelling?_ne_error (error ▸ unnamed)

theorem anyError_eq_false (clean : ∀ t ∈ trees, t.hasError = false) : anyError trees = false := by
  induction trees with
  | nil => rfl
  | cons t rest ih =>
    obtain ⟨here, later⟩ := List.forall_mem_cons.mp clean
    rw [anyError, here, ih later]
    rfl

theorem hasError_eq_false (clean : ∀ s ∈ t.nodes, s.kind? ≠ some .error) : t.hasError = false := by
  induction t using induct with
  | leaf token => rfl
  | gap => rfl
  | node kind extent trees ih =>
    obtain ⟨here, below⟩ := List.forall_mem_cons.mp clean
    have other : kind ≠ .error := fun same => here (congrArg some same)
    have others : anyError trees = false := anyError_eq_false fun t member =>
      ih t member fun s inside => below s (mem_nodesOf.mpr ⟨t, member, inside⟩)
    rw [hasError, others, beq_eq_false_iff_ne.mpr other]
    rfl

end Tree

namespace Derivation

set_option maxRecDepth 10000 in
private theorem shape_ne_error : ∀ p ∈ Grammar.productions, p.shape ≠ .node .error := by
  decide

theorem Valid.kind?_ne_error {d : Derivation} (valid : d.Valid) :
    ∀ t ∈ Tree.nodesOf d.trees, t.kind? ≠ some .error := by
  induction valid with
  | token t =>
    rintro _ (_ | ⟨_, ⟨⟩⟩)
    exact t.kind.ofTerminal?_ne_error
  | @phrase p parts member body _ ih =>
    refine forall_node_phrase body (fun kind shape same => ?_) fun d part _ => ih d part
    exact shape_ne_error p member (shape.trans (congrArg Shape.node (Option.some.inj same)))

theorem Derives.kind?_root {d : Derivation} {tokens : List SourceToken} {tree : Tree}
    (derives : d.Derives .sourceFile tokens) (trees : d.trees = [tree]) :
    tree.kind? = some .sourceFile := by
  obtain ⟨extent, parts, root⟩ := derives.exists_root
  obtain rfl := List.singleton_inj.mp (trees.symm.trans root)
  rfl

end Derivation

namespace Reading

variable {r : Reading} {source : Source}

/-- What holds of all terminals that productions keep holds of the leaves of a tree, which are
tokens with the texts of their kinds. -/
theorem forall_leaf (vyper : r.Vyper) (clean : (r.parse source).errors = [])
    {holds : Terminal → Prop}
    (listed : ∀ p ∈ Grammar.productions, ∀ t, .kept (.terminal t) ∈ p.slots → holds t) :
    ∀ token ∈ (r.parse source).root.leaves, holds token.kind ∧ token.Spelled := by
  obtain ⟨tokens, d, reads, silent, ⟨valid, symbol, yield⟩, trees⟩ := exists_derivation vyper clean
  have phrase : ∀ {t}, d.symbol ≠ .terminal t := fun same => by rw [symbol] at same; cases same
  have leaves := valid.canBeLeaf fun t same => absurd same phrase
  have inside := valid.thins.sublist
  have holds := valid.forall_leaf listed fun t same => absurd same phrase
  rw [trees, Tree.leavesOf_singleton] at leaves inside holds
  intro token leaf
  refine ⟨holds token leaf, ?_⟩
  -- The layout's own tokens are no leaves, so the token was read.
  have plain := Terminal.not_layout_of_canBeLeaf (leaves token leaf)
  have given := inside.subset leaf
  rw [yield] at given
  rcases mem_scanFrom given with read | ⟨indent | dedent, _⟩
  · exact Tokenizes.spelled reads token read
  · exact absurd indent plain.2.1
  · exact absurd dedent plain.2.2

theorem understood_of_errors (vyper : r.Vyper) (clean : (r.parse source).errors = []) :
    (r.parse source).Understood := by
  have leaves := forall_leaf vyper clean fun _ member _ inside =>
    Grammar.canBeLeaf_of_kept member inside
  obtain ⟨tokens, d, reads, silent, derives, trees⟩ := exists_derivation vyper clean
  have kinds := derives.valid.kind?_ne_error
  rw [trees, Tree.nodesOf, Tree.nodesOf, List.append_nil] at kinds
  refine ⟨clean, derives.kind?_root trees, fun t member => ⟨?_, ?_⟩⟩
  · cases t with
    | gap => exact (by decide : "" ≠ "ERROR")
    | node kind extent children =>
      exact NodeKind.text_ne_error fun same => kinds _ member (congrArg some same)
    | leaf token =>
      obtain ⟨leaf, spelled⟩ := leaves token (Tree.mem_leaves.mpr member)
      exact Tree.type_leaf_ne_error leaf spelled
  · exact Tree.hasError_eq_false fun u below => kinds u (Tree.mem_nodes_trans below member)

theorem hasText_parse (r : Reading) (source : Source) :
    source.HasText (r.parse source).text := by
  cases source with
  | text t => exact text_parseText t
  | bytes bytes =>
    rw [parse]
    cases decoded : Utf8.decode bytes with
    | error e => exact Utf8.mended_decodeLossy bytes
    | ok t =>
      dsimp only
      rw [text_parseText, Utf8.decode_eq_ok_iff.mp decoded]
      exact Utf8.mended_encode t

end Reading

/-- Parsing gives a tree for every source, and just one of two things holds of it. Either there
are no errors and the source is understood, or there is one error and nothing but it. The text
is the given one, or that of the given bytes. -/
theorem Parser.parse_total {l : Language} (vyper : l.handle.reading.Vyper) (source : Source) :
    ∃ p, (Parser.empty.setLanguage l).parse source = .ok p ∧ source.HasText p.text ∧
      Xor p.Understood p.Failed := by
  refine ⟨l.parse source, rfl, Reading.hasText_parse _ source, ?_⟩
  cases came : (l.parse source).outcome with
  | error e =>
    have failed := Parse.failed_of_error came
    exact .inr ⟨failed, fun understood => understood.not_failed failed⟩
  | ok tree =>
    have clean : (l.parse source).errors = [] := by rw [Parse.errors, came]
    have understood := Reading.understood_of_errors vyper clean
    exact .inl ⟨understood, understood.not_failed⟩

theorem Parser.parse_total_bytes :
    (Artifact.language .default).handle.reading.Vyper ∧
      ∃ p, (Parser.empty.setLanguage (Artifact.language .default)).parse (.bytes [0xff]) = .ok p ∧
        Utf8.Mended [0xff] p.text ∧ Xor p.Understood p.Failed :=
  ⟨rfl, parse_total (l := Artifact.language .default) rfl (.bytes [0xff])⟩

end VyperFront
