import VyperFront.Proofs.Parser.Derivation
import VyperFront.Proofs.Tree.Reach

/-! The tree of a source lies in its text: nodes inside of their parents, children one after
the other, and each leaf exactly over the token that it is. The text that is read may have one
line break more than the source; offsets stay within the source. -/

namespace VyperFront

open Layout

namespace Reading

variable {source : Text} {start stop offset : Nat}

theorem length_ended_le (source : Text) : (ended source).length ≤ source.length + 1 := by
  rw [ended]
  split
  · exact Nat.le_succ _
  · rw [List.length_append, List.length_singleton]

theorem take_ended (within : offset ≤ source.length) :
    (ended source).take offset = source.take offset := by
  rw [ended]
  split
  · rfl
  · exact List.take_append_of_le_length within

theorem slice_ended (within : stop ≤ source.length) :
    (ended source).slice start stop = source.slice start stop := by
  rw [Text.slice, Text.slice, ← List.drop_take, ← List.drop_take, take_ended within]

end Reading

namespace Tree

variable {t : Tree} {e : Extent} {length : Nat}

theorem startOffset_of_extent (found : t.extent? = some e) : t.startOffset = e.start.offset := by
  rw [startOffset, found]

/-- If leaves do not go beyond the text, no end does once it is cut. -/
theorem endOffset_of_extent (found : t.extent? = some e)
    (within : ∀ token, t = leaf token → token.place.stop.offset ≤ length) :
    t.endOffset length = min e.stop.offset length := by
  cases t with
  | gap => cases found
  | leaf token =>
    cases found
    exact (Nat.min_eq_left (within token rfl)).symm
  | node kind extent trees =>
    obtain rfl : extent = some e := found
    rfl

/-- The offsets of a node are those of its place, cut to the source. -/
theorem exists_extent {text source : Text} {root : Tree}
    (leaves : ∀ token ∈ root.leaves, token.place.stop.offset ≤ source.length)
    (settled : ∀ t ∈ root.nodes, t.Settled text) (member : t ∈ root.nodes) :
    ∃ e, t.extent? = some e ∧ e.In text ∧ t.startOffset = e.start.offset ∧
      t.endOffset source.length = min e.stop.offset source.length ∧
      Spaced text e.start.offset (t.children.map Prod.snd) e.stop.offset := by
  obtain ⟨e, found, placed, below⟩ := settled t member
  refine ⟨e, found, placed, startOffset_of_extent found,
    endOffset_of_extent found ?_, below⟩
  rintro token rfl
  exact leaves token (mem_leaves.mpr member)

end Tree

theorem EndsLine.stop_lt {text : Text} {tokens : List SourceToken} {t : SourceToken}
    (ends : EndsLine tokens) (laid : Laid text tokens) (member : t ∈ tokens)
    (leaf : t.kind.canBeLeaf = true) : t.place.stop.offset < text.length := by
  obtain ⟨front, last, after, rfl, newline, dedents⟩ := ends
  obtain ⟨notNewline, _, notDedent⟩ := Terminal.not_layout_of_canBeLeaf leaf
  have real : ¬ Added last := by
    rw [Added, newline]
    decide
  have place := laid.placed last (by simp)
  rcases List.mem_append.mp member with before | later
  · have apart := (List.pairwise_append.mp laid.ordered).2.2 t before last List.mem_cons_self
    exact Nat.lt_of_le_of_lt (apart.before real)
      (Nat.lt_of_lt_of_le place.forward place.stop.offset_le)
  · rcases List.mem_cons.mp later with rfl | later
    · exact absurd newline notNewline
    · exact absurd (dedents t later) notDedent

namespace Parser

variable {c : Config} {source : Source} {p : Parse}

/-- The leaves are tokens that were found in the source, and the nodes have their places in the
text that was read. Only the tree of an empty source has none. -/
theorem exists_settled
    (parsed : (Parser.empty.setLanguage (Artifact.language c)).parse source = .ok p)
    (clean : p.errors = []) :
    ∃ tokens : List SourceToken,
      (Artifact.language c).handle.reading.Reads (Reading.ended p.text) tokens ∧
      (∀ token ∈ p.root.leaves, token ∈ tokens ∧ token.FoundIn (Reading.ended p.text) ∧
        token.place.stop.offset ≤ p.text.length) ∧
      (p.root = .node .sourceFile none [] ∨
        ∀ t ∈ p.root.nodes, t.Settled (Reading.ended p.text)) := by
  obtain ⟨tokens, d, reads, _, derives, trees⟩ := Parser.exists_derivation parsed clean
  have laid := reads.laid c.tabWidth
  refine ⟨tokens, reads, fun token member => ?_, ?_⟩
  · have kept := derives.valid.canBeLeaf (fun t same => by rw [derives.symbol] at same; cases same)
    have thins := derives.valid.thins.sublist
    rw [trees, Tree.leavesOf_singleton] at kept thins
    rw [derives.yield] at thins
    have leaf := kept token member
    have inside := thins.subset member
    have real := Derivation.not_added_of_canBeLeaf leaf
    refine ⟨?_, laid.found token inside real, ?_⟩
    · rcases mem_scanFrom inside with read | ⟨added, _⟩
      · exact read
      · exact absurd added real
    · rcases derives.endsLine with empty | ends
      · rw [empty] at inside
        cases inside
      · have := ends.stop_lt laid inside leaf
        have := Reading.length_ended_le p.text
        omega
  · have settled := derives.settled laid
    rw [trees] at settled
    rcases settled with empty | settled
    · exact .inl (List.singleton_inj.mp empty)
    · exact .inr fun t member => settled t (Tree.mem_nodesOf.mpr ⟨_, List.mem_cons_self, member⟩)

/-- The part of the source at a leaf is the token that was read there. -/
theorem textIn_leaf {token : SourceToken}
    (parsed : (Parser.empty.setLanguage (Artifact.language c)).parse source = .ok p)
    (clean : p.errors = []) (member : .leaf token ∈ p.root.nodes) :
    (Tree.leaf token).textIn p.text = token.text := by
  obtain ⟨_, _, leaves, _⟩ := exists_settled parsed clean
  obtain ⟨_, found, within⟩ := leaves token (Tree.mem_leaves.mpr member)
  exact (Reading.slice_ended within).symm.trans found.slice_eq

/-- Each node ends where it begins or later, and within the source. It holds its children,
each of which ends before the next begins. The part of the source at a leaf is the token that
was read there; without a kind of its own, its type is that text. -/
theorem parse_geometry
    (parsed : (Parser.empty.setLanguage (Artifact.language c)).parse source = .ok p)
    (clean : p.errors = []) :
    ∃ tokens : List SourceToken,
      (Artifact.language c).handle.reading.Reads (Reading.ended p.text) tokens ∧
      ∀ t ∈ p.root.nodes,
        t.startOffset ≤ t.endOffset p.text.length ∧
        t.endOffset p.text.length ≤ p.text.length ∧
        (∀ child ∈ t.children, t.startOffset ≤ child.2.startOffset ∧
          child.2.endOffset p.text.length ≤ t.endOffset p.text.length) ∧
        t.children.Pairwise (fun a b => a.2.endOffset p.text.length ≤ b.2.startOffset) ∧
        ∀ token, t = .leaf token →
          token ∈ tokens ∧ t.textIn p.text = token.text ∧
            (t.isNamed = false → t.type = String.ofList token.text) := by
  obtain ⟨tokens, reads, leaves, nodes⟩ := exists_settled parsed clean
  have within (token : SourceToken) (leaf : token ∈ p.root.leaves) :
      token.place.stop.offset ≤ p.text.length := (leaves token leaf).2.2
  refine ⟨tokens, reads, fun t member => ?_⟩
  rcases nodes with empty | settled
  · rw [empty] at member
    obtain rfl := List.mem_singleton.mp member
    exact ⟨Nat.le_refl 0, Nat.zero_le _, nofun, .nil, nofun⟩
  obtain ⟨e, found, placed, start, stop, below⟩ := Tree.exists_extent within settled member
  have node {child : Option Field × Tree} (inside : child ∈ t.children) :=
    Tree.exists_extent within settled (Tree.mem_nodes_of_child member inside)
  refine ⟨?_, ?_, fun child inside => ?_, ?_, ?_⟩
  · have ends := placed.stop.offset_le
    have length := Reading.length_ended_le p.text
    have forward := placed.forward
    omega
  · exact stop ▸ Nat.min_le_right _ _
  · obtain ⟨f, found, _, startChild, stopChild, _⟩ := node inside
    have between := below.between (List.mem_map_of_mem inside) found
    omega
  · refine (List.pairwise_map.mp below.pairwise).imp_of_mem fun first second apart => ?_
    obtain ⟨f, found, _, _, stop, _⟩ := node first
    obtain ⟨g, next, _, start, _⟩ := node second
    have := apart f g found next
    omega
  · rintro token rfl
    obtain ⟨inside, _⟩ := leaves token (Tree.mem_leaves.mpr member)
    refine ⟨inside, textIn_leaf parsed clean member, fun unnamed => ?_⟩
    have anonymous : NodeKind.ofTerminal? token.kind = none :=
      Option.not_isSome_iff_eq_none.mp (Bool.eq_false_iff.mp unnamed)
    rw [Tree.type, anonymous]

/-- A source without the last line break: where the block ends is cut to the source. -/
theorem parse_geometry_lines : ∃ p : Parse,
    (Parser.empty.setLanguage (Artifact.language .default)).parse
        (.text "if a:\n b += c".toList) = .ok p ∧
      p.errors = [] ∧ p.root = Sample.tree ∧ p.text = "if a:\n b += c".toList ∧
      ∃ tokens : List SourceToken,
        (Artifact.language .default).handle.reading.Reads (Reading.ended p.text) tokens ∧
        ∀ t ∈ p.root.nodes,
          t.startOffset ≤ t.endOffset p.text.length ∧
          t.endOffset p.text.length ≤ p.text.length ∧
          (∀ child ∈ t.children, t.startOffset ≤ child.2.startOffset ∧
            child.2.endOffset p.text.length ≤ t.endOffset p.text.length) ∧
          t.children.Pairwise (fun a b => a.2.endOffset p.text.length ≤ b.2.startOffset) ∧
          ∀ token, t = .leaf token →
            token ∈ tokens ∧ t.textIn p.text = token.text ∧
              (t.isNamed = false → t.type = String.ofList token.text) := by
  have same : Reading.ended "if a:\n b += c".toList = Sample.lines := by decide
  obtain ⟨p, parsed, clean, root, text⟩ := Sample.exists_parse _ same
  exact ⟨p, parsed, clean, root, text, parse_geometry parsed clean⟩

end Parser

/-! Rows and columns agree with offsets. The lexer counts lines and columns as it goes; at all
nodes of a tree they are those that the source says. -/

namespace Reading

variable {source : Text} {offset : Nat}

theorem point_ended (within : offset ≤ source.length) :
    (ended source).point offset = source.point offset := by
  rw [Text.point, Text.point, take_ended within]

end Reading

namespace Tree

variable {text : Text} {t : Tree} {e : Extent}

theorem startPoint_of_extent (found : t.extent? = some e) (placed : e.In text) :
    t.startPoint = text.point e.start.offset := by
  rw [startPoint, found]
  exact placed.start.point

theorem endPoint_of_extent (found : t.extent? = some e) (placed : e.In text) :
    t.endPoint = text.point e.stop.offset := by
  rw [endPoint, found]
  exact placed.stop.point

end Tree

namespace Parser

variable {c : Config} {source : Source} {p : Parse}

/-- The start point of a node is how many line feeds are before its start offset, and how many
characters after the last of them. If the source ends its last line, so is the end point. -/
theorem parse_points
    (parsed : (Parser.empty.setLanguage (Artifact.language c)).parse source = .ok p)
    (clean : p.errors = []) :
    ∀ t ∈ p.root.nodes,
      t.startPoint = p.text.point t.startOffset ∧
      (p.text.endsLine = true → t.endPoint = p.text.point (t.endOffset p.text.length)) := by
  obtain ⟨_, _, leaves, nodes⟩ := exists_settled parsed clean
  intro t member
  rcases nodes with empty | settled
  · rw [empty] at member
    obtain rfl := List.mem_singleton.mp member
    exact ⟨rfl, fun _ => rfl⟩
  obtain ⟨e, found, placed, start, stop, _⟩ :=
    Tree.exists_extent (fun token leaf => (leaves token leaf).2.2) settled member
  have ends := placed.stop.offset_le
  constructor
  · have length := Reading.length_ended_le p.text
    have forward := placed.forward
    rw [Tree.startPoint_of_extent found placed, start, Reading.point_ended (by omega)]
  · intro line
    have whole : Reading.ended p.text = p.text := if_pos line
    rw [whole] at placed ends
    rw [Tree.endPoint_of_extent found placed, stop, Nat.min_eq_left ends]

theorem parse_points_lines : ∃ p : Parse,
    (Parser.empty.setLanguage (Artifact.language .default)).parse (.text Sample.lines) = .ok p ∧
      p.errors = [] ∧ p.root = Sample.tree ∧ p.text.endsLine = true ∧
      ∀ t ∈ p.root.nodes,
        t.startPoint = p.text.point t.startOffset ∧
        t.endPoint = p.text.point (t.endOffset p.text.length) := by
  obtain ⟨p, parsed, clean, root, text⟩ := Sample.exists_parse Sample.lines rfl
  have line : p.text.endsLine = true := by
    rw [text]
    decide
  refine ⟨p, parsed, clean, root, line, fun t member => ?_⟩
  obtain ⟨start, stop⟩ := parse_points parsed clean t member
  exact ⟨start, stop line⟩

end Parser

end VyperFront
