import VyperFront.Proofs.Outline.Declared
import VyperFront.Proofs.Outline.Modifier
import VyperFront.Proofs.Outline.Quoted
import VyperFront.Proofs.Tree.Calls

/-! The types and values of an outline are pieces of the source. Their brackets are balanced, if
the trees that they are taken from are not cut. -/

namespace VyperFront

open Layout

namespace Reading

theorem brackets_slice_ended (source : Text) (lo hi : Nat) :
    Text.brackets ((ended source).slice lo hi) = Text.brackets (source.slice lo hi) := by
  rw [ended]
  split
  · rfl
  · have bare (n m : Nat) : Text.brackets ((['\n'].drop n).take m) = [] := by
      rw [Text.brackets_eq_nil_iff]
      intro c member
      rw [List.mem_singleton.mp (List.mem_of_mem_drop (List.mem_of_mem_take member))]
      decide
    rw [Text.slice, Text.slice, List.drop_append, List.take_append, Text.brackets_append, bare,
      List.append_nil]

theorem unquoted_ended {source : Text} (unquoted : source.Unquoted) : (ended source).Unquoted := by
  rw [ended]
  split
  · exact unquoted
  · have plain : '\n' ≠ '#' ∧ Lexeme.isQuote '\n' = false := by decide
    exact List.forall_mem_append.mpr ⟨unquoted, List.forall_mem_singleton.mpr plain⟩

end Reading

namespace Derivation.Origin

open Outline

variable {source : Text} {tokens : List SourceToken} {t : Tree} {e : Derivation}
  (origin : Origin tokens t e) (braced : Braced (Reading.ended source) tokens)
  (placed : ∃ span, t.extent? = some span ∧
    t.textIn source = source.slice span.start.offset span.stop.offset)

include origin braced placed

theorem balanced_textIn : (t.textIn source).Balanced ↔ ¬ t.IsCut tokens := by
  obtain ⟨span, found, text⟩ := placed
  rw [← origin.balanced_iff braced found, text, ← Text.balanced_brackets,
    ← Reading.brackets_slice_ended, Text.balanced_brackets]

theorem balanced_split_iff (none : (Modifier.split (t.textIn source)).1 = []) :
    (Modifier.split (t.textIn source)).2.Balanced ↔ ¬ t.IsCut tokens := by
  have same := (Modifier.split_brackets (t.textIn source)).2
  rw [none] at same
  have bare : Text.brackets (Modifier.split (t.textIn source)).2 =
      Text.brackets (t.textIn source) := same.symm
  rw [← origin.balanced_textIn braced placed, ← Text.balanced_brackets, bare,
    Text.balanced_brackets]

/-- If each modifier is a call, then what is left without them is balanced. -/
theorem balanced_split (whole : ¬ t.IsCut tokens)
    (calls : t.Calls tokens (Modifier.split (t.textIn source)).1.length) :
    (Modifier.split (t.textIn source)).2.Balanced := by
  obtain ⟨span, found, text⟩ := placed
  obtain ⟨part, around⟩ := Modifier.split_brackets (t.textIn source)
  have cases := origin.brackets_slice braced found whole
  rw [Reading.brackets_slice_ended, ← text] at cases
  rcases cases with own | none
  · obtain ⟨inside, balanced, same⟩ := origin.brackets_of_calls origin.part calls
    rw [← Text.balanced_brackets, Text.enclosed_inj.mp (around.symm.trans (own.trans same))]
    exact balanced
  · apply Text.Balanced.of_brackets
    rw [Text.brackets_eq_nil_iff] at none ⊢
    exact fun c member => none c (part.subset member)

end Derivation.Origin

theorem Text.slice_infix (t : Text) (start stop : Nat) : t.slice start stop <:+: t :=
  (List.take_prefix ..).isInfix.trans (List.drop_suffix ..).isInfix

theorem Tree.textIn_infix (t : Tree) (source : Text) : t.textIn source <:+: source :=
  source.slice_infix _ _

namespace Parser

open Outline VyperFront.Derivation

variable {c : Config} {source : Source} {p : Parse} {tokens : List SourceToken}

/-- Each node below the root is that of a derivation of some of the tokens. -/
theorem exists_origins {d : Derivation} {root : Tree} (derives : d.Derives .sourceFile tokens)
    (trees : d.trees = [root]) :
    ∀ child ∈ root.children.map Prod.snd, ∀ t ∈ child.nodes, ∃ e, Origin tokens t e := by
  obtain rfl | ⟨items, valid, symbol, rfl⟩ := derives.cases_sourceFile
  · obtain rfl := List.singleton_inj.mp trees
    exact nofun
  · have whole : items.yield = tokens := (List.append_nil _).symm.trans derives.yield
    have origins := valid.exists_origin (by rw [symbol]; rfl)
      (fun kind terminal => Symbol.noConfusion (symbol.symm.trans terminal))
    obtain rfl := List.singleton_inj.mp trees
    rw [whole] at origins
    intro child member t inside
    rw [Tree.map_snd_children] at member
    have below : child ∈ items.trees := by
      have kept : child ∈ items.trees ++ [] := (List.mem_filter.mp member).1
      rwa [List.append_nil] at kept
    exact origins t (Tree.mem_nodesOf.mpr ⟨child, below, inside⟩)

theorem textIn_eq
    (parsed : (Parser.empty.setLanguage (Artifact.language c)).parse source = .ok p)
    (clean : p.errors = []) :
    ∀ t ∈ p.root.nodes, ∀ e, t.extent? = some e →
      t.textIn p.text = p.text.slice e.start.offset e.stop.offset := by
  obtain ⟨_, _, leaves, _⟩ := exists_settled parsed clean
  intro t member e found
  have within (token : SourceToken) (leaf : t = .leaf token) :
      token.place.stop.offset ≤ p.text.length := by
    rw [leaf] at member
    exact (leaves token (Tree.mem_leaves.mpr member)).2.2
  rw [Tree.textIn, Tree.startOffset_of_extent found, Tree.endOffset_of_extent found within,
    slice_min]

/-- The tokens of a source are laid out in it, and those that can be leaves are found there as they
are spelled. Each node below the root is that of a derivation of some of them. Its text is the
source between its ends. -/
theorem exists_laid
    (parsed : (Parser.empty.setLanguage (Artifact.language c)).parse source = .ok p)
    (clean : p.errors = []) :
    ∃ tokens : List SourceToken,
      (Artifact.language c).handle.reading.Reads (Reading.ended p.text) tokens ∧
      failureOf? (scan c.tabWidth tokens) = none ∧
      Laid (Reading.ended p.text) (tokensOf (scan c.tabWidth tokens)) ∧
      (∀ t ∈ tokensOf (scan c.tabWidth tokens), t.kind.canBeLeaf = true →
        t.Spelled ∧ p.text.slice t.place.start.offset t.place.stop.offset = t.text) ∧
      ∀ child ∈ p.root.children.map Prod.snd, ∀ t ∈ child.nodes, t ∈ p.root.nodes ∧
        ∃ e, Origin (tokensOf (scan c.tabWidth tokens)) t e ∧ ∃ span, t.extent? = some span ∧
          t.textIn p.text = p.text.slice span.start.offset span.stop.offset := by
  obtain ⟨tokens, d, reads, silent, derives, trees⟩ := Parser.exists_derivation parsed clean
  have laid := reads.laid c.tabWidth
  refine ⟨tokens, reads, silent, laid, fun t member leaf => ⟨?_, ?_⟩, fun child below t inside => ?_⟩
  · rcases mem_scanFrom member with read | ⟨added, _⟩
    · exact Reading.Tokenizes.spelled reads t read
    · exact absurd added (not_added_of_canBeLeaf leaf)
  · rw [← (laid.found t member (not_added_of_canBeLeaf leaf)).slice_eq, Reading.slice_ended]
    rcases derives.endsLine with empty | ends
    · rw [empty] at member
      cases member
    · have := ends.stop_lt laid member leaf
      have := Reading.length_ended_le p.text
      omega
  · have within : t ∈ p.root.nodes := by
      obtain ⟨extent, all, root⟩ := derives.exists_sourceFile trees
      rw [root, Tree.map_snd_children] at below
      rw [root]
      apply List.mem_cons_of_mem
      exact Tree.mem_nodesOf.mpr ⟨child, (List.mem_filter.mp below).1, inside⟩
    obtain ⟨e, origin⟩ := exists_origins derives trees child below t inside
    obtain ⟨_, _, _, _, _, found⟩ := origin.exists_ends
    exact ⟨within, e, origin, _, found, textIn_eq parsed clean t within _ found⟩

/-- The tokens that are laid out in a text without quotes and comments have its brackets. -/
theorem exists_braced
    (parsed : (Parser.empty.setLanguage (Artifact.language c)).parse source = .ok p)
    (clean : p.errors = []) (unquoted : p.text.Unquoted) :
    ∃ tokens : List SourceToken,
      (Artifact.language c).handle.reading.Reads (Reading.ended p.text) tokens ∧
      Braced (Reading.ended p.text) (tokensOf (scan c.tabWidth tokens)) ∧
      ∀ child ∈ p.root.children.map Prod.snd, ∀ t ∈ child.nodes, t ∈ p.root.nodes ∧
        ∃ e, Origin (tokensOf (scan c.tabWidth tokens)) t e ∧ ∃ span, t.extent? = some span ∧
          t.textIn p.text = p.text.slice span.start.offset span.stop.offset := by
  obtain ⟨tokens, reads, silent, laid, _, known⟩ := exists_laid parsed clean
  refine ⟨tokens, reads, ⟨laid, fun n => ?_⟩, known⟩
  rw [Reading.bracketsOf_scan silent]
  exact reads.brackets_take (Reading.unquoted_ended unquoted) n

/-- All that the outline takes from the source is a piece of it: the source at a node, or what is
left of that without modifiers. Its brackets are balanced just if the node is not cut. What is
left of a type with modifiers is balanced if the node is not cut, and its modifiers are calls. -/
theorem outline_balanced
    (parsed : (Parser.empty.setLanguage (Artifact.language c)).parse source = .ok p)
    (clean : p.errors = []) (unquoted : p.text.Unquoted) :
    ∃ tokens : List SourceToken,
      (Artifact.language c).handle.reading.Reads (Reading.ended p.text) tokens ∧
      ∀ d ∈ p.outline,
        (∀ s ∈ d.texts, s <:+: p.text ∧ ∃ t ∈ p.root.nodes, s = t.textIn p.text ∧
          (s.Balanced ↔ ¬ t.IsCut (tokensOf (scan c.tabWidth tokens)))) ∧
        ∀ s ∈ d.types, s <:+: p.text ∧ ∃ t ∈ p.root.nodes,
          s = (Modifier.split (t.textIn p.text)).2 ∧
          ((Modifier.split (t.textIn p.text)).1 = [] →
            (s.Balanced ↔ ¬ t.IsCut (tokensOf (scan c.tabWidth tokens)))) ∧
          (¬ t.IsCut (tokensOf (scan c.tabWidth tokens)) →
            t.Calls (tokensOf (scan c.tabWidth tokens))
              (Modifier.split (t.textIn p.text)).1.length → s.Balanced) := by
  obtain ⟨tokens, reads, braced, known⟩ := exists_braced parsed clean unquoted
  refine ⟨tokens, reads, fun d member => ?_⟩
  obtain ⟨child, inside, declares⟩ := forall₂_exists (declares_outline parsed clean) member
  obtain ⟨below, declaring⟩ := List.mem_filter.mp inside
  obtain ⟨texts, types⟩ := quotes_declaration declares (solid_of_isOf declaring)
  constructor
  · intro s text
    obtain ⟨t, within, rfl⟩ := texts s text
    obtain ⟨within, e, origin, placed⟩ := known child below t within
    exact ⟨Tree.textIn_infix t p.text, t, within, rfl, origin.balanced_textIn braced placed⟩
  · intro s type
    obtain ⟨_, ⟨t, within, rfl⟩, rfl⟩ := types s type
    obtain ⟨within, e, origin, placed⟩ := known child below t within
    have part := (Modifier.split_brackets (t.textIn p.text)).1
    exact ⟨part.trans (Tree.textIn_infix t p.text), t, within, rfl,
      origin.balanced_split_iff braced placed, origin.balanced_split braced placed⟩

theorem outline_balanced_storage : ∃ p : Parse,
    (Parser.empty.setLanguage (Artifact.language .default)).parse (.text Sample.storage) = .ok p ∧
      p.errors = [] ∧ p.text.Unquoted ∧
      p.outline = [.storage ⟨"x".toList, "t".toList, [.public], some "(a + b) * c".toList⟩] ∧
      ∃ tokens : List SourceToken,
        (Artifact.language .default).handle.reading.Reads (Reading.ended p.text) tokens ∧
        ∀ d ∈ p.outline,
          (∀ s ∈ d.texts, s <:+: p.text ∧ ∃ t ∈ p.root.nodes, s = t.textIn p.text ∧
            (s.Balanced ↔ ¬ t.IsCut (tokensOf (scan .eight tokens)))) ∧
          ∀ s ∈ d.types, s <:+: p.text ∧ ∃ t ∈ p.root.nodes,
            s = (Modifier.split (t.textIn p.text)).2 ∧
            ((Modifier.split (t.textIn p.text)).1 = [] →
              (s.Balanced ↔ ¬ t.IsCut (tokensOf (scan .eight tokens)))) ∧
            (¬ t.IsCut (tokensOf (scan .eight tokens)) →
              t.Calls (tokensOf (scan .eight tokens))
                (Modifier.split (t.textIn p.text)).1.length → s.Balanced) := by
  obtain ⟨p, parsed, clean, _, text, outline⟩ := Sample.exists_parse_storage
  have unquoted : p.text.Unquoted := by
    rw [text]
    decide
  exact ⟨p, parsed, clean, unquoted, outline, outline_balanced parsed clean unquoted⟩

/-! A source with a value that begins at a name in brackets. -/

namespace Sample

def cut : Text := "x: uint256 = (a) + b\n".toList

/-- What the lexer reads in it. -/
def cutTokens : List SourceToken :=
  [⟨.name, "x".toList, ⟨⟨0, 1, 1⟩, ⟨1, 1, 2⟩⟩⟩,
    ⟨.colon, ":".toList, ⟨⟨1, 1, 2⟩, ⟨2, 1, 3⟩⟩⟩,
    ⟨.name, "uint256".toList, ⟨⟨3, 1, 4⟩, ⟨10, 1, 11⟩⟩⟩,
    ⟨.equal, "=".toList, ⟨⟨11, 1, 12⟩, ⟨12, 1, 13⟩⟩⟩,
    ⟨.leftParen, "(".toList, ⟨⟨13, 1, 14⟩, ⟨14, 1, 15⟩⟩⟩,
    ⟨.name, "a".toList, ⟨⟨14, 1, 15⟩, ⟨15, 1, 16⟩⟩⟩,
    ⟨.rightParen, ")".toList, ⟨⟨15, 1, 16⟩, ⟨16, 1, 17⟩⟩⟩,
    ⟨.plus, "+".toList, ⟨⟨17, 1, 18⟩, ⟨18, 1, 19⟩⟩⟩,
    ⟨.name, "b".toList, ⟨⟨19, 1, 20⟩, ⟨20, 1, 21⟩⟩⟩,
    ⟨.newline, "\n".toList, ⟨⟨20, 1, 21⟩, ⟨21, 2, 1⟩⟩⟩]

theorem tokenizes_cut : Lexer.Tokenizes .spelled ⟨cut, .start⟩ cutTokens :=
  Lexer.tokenizes_of_parts rfl rfl rfl

private def cutValue : Derivation :=
  let bracketed : Derivation :=
    .phrase ⟨.atom, .pass, [.dropped (.terminal .leftParen), .kept (.nonterminal .test),
        .dropped (.terminal .rightParen)]⟩
      [.token cutTokens[4], test cutTokens[5], .token cutTokens[6]]
  climb (binary .arithExpr
      (climb bracketed [.primary, .prefixedCall, .power, .factor, .term, .arithExpr])
      (splice (.token cutTokens[7]) .addOperator) (climb (operand cutTokens[8]) [.term]))
    [.shiftExpr, .andExpr, .xorExpr, .expr, .comparison, .notTest, .andTest, .orTest, .test]

def cutDerivation : Derivation :=
  annotated cutTokens[0] cutTokens[1] (test cutTokens[2]) cutTokens[3] cutValue cutTokens[9]

end Sample

set_option maxRecDepth 4000 in
/-- The brackets around a name at the front of a value are forgotten, but not the bracket after
it that the source has there: what the outline has for the value is not balanced. -/
theorem outline_unbalanced : ∃ p : Parse,
    (Parser.empty.setLanguage (Artifact.language .default)).parse (.text Sample.cut) = .ok p ∧
      p.errors = [] ∧ p.text.Unquoted ∧
      p.outline = [.storage ⟨"x".toList, "uint256".toList, [], some "a) + b".toList⟩] ∧
      ¬ Text.Balanced "a) + b".toList := by
  have derived : Reading.Derived .eight Sample.cut Sample.cutDerivation :=
    ⟨Sample.cutTokens, Sample.tokenizes_cut, by decide, by decide, rfl, rfl⟩
  obtain ⟨p, parsed, clean, root, text⟩ := Parser.exists_parse .default derived rfl
  refine ⟨p, parsed, clean, ?_, ?_, by decide⟩
  · rw [text]
    decide
  · rw [Parse.outline_eq clean, root, text]
    rfl

end Parser

end VyperFront
