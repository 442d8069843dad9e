import VyperFront.Proofs.CarriageReturn
import VyperFront.Proofs.Encoding
import VyperFront.Proofs.Location
import VyperFront.Proofs.Tree.Geometry

/-! Sources whose last line is not ended. They are parsed as with a line feed at their end, to the
same tree or to the same error: nothing that a report shows or counts is in the empty line after
that line feed. -/

namespace VyperFront

namespace Utf8

theorem encode_concat_feed (t : Text) : encode (t ++ ['\n']) = encode t ++ [10] := by
  rw [encode_append, encode_cons, encodeChar_newline, encode_nil, List.append_nil]

/-- Bytes that are no text are none with a line feed at their end, from the same byte on. -/
theorem exists_decode_concat_feed {bytes : List UInt8} (no : ∀ t, bytes ≠ encode t) :
    ∃ e also, decode bytes = .error e ∧ decode (bytes ++ [10]) = .error also ∧
      also.offset = e.offset ∧ e.offset ≤ bytes.length := by
  obtain ⟨t, part, later, fault, rfl, broken, decoded⟩ := exists_broken no
  obtain ⟨other, also⟩ := (broken.append []).decode_eq t
  refine ⟨_, ⟨_, part.length, other⟩, decoded, ?_, rfl, by simp⟩
  rw [List.append_assoc, List.append_assoc]
  exact also

theorem takeWhile_concat_feed (bytes : List UInt8) :
    (bytes ++ [10]).takeWhile (· != 10) = bytes.takeWhile (· != 10) := by
  by_cases member : 10 ∈ bytes
  · obtain ⟨line, later, rfl, inside⟩ := List.eq_append_cons_of_mem member
    rw [List.append_assoc, List.cons_append, takeWhile_append inside, takeWhile_append inside]
  · rw [takeWhile_append member, takeWhile_line member]

end Utf8

namespace Hint

variable {source : Text}

/-- An empty line at the end is blank, and has no brackets. -/
theorem forSource_concat_feed : forSource (source ++ ['\n']) = forSource source := by
  have count {c : Char} (other : c ≠ '\n') : (source ++ ['\n']).count c = source.count c := by
    rw [List.count_append, List.count_singleton, if_neg (by simpa using other.symm), Nat.add_zero]
  have lines : indentations (source ++ ['\n']) = indentations source := by
    rw [indentations, Text.lines_concat_feed, List.filter_append, List.map_append]
    exact List.append_nil _
  rw [forSource, forSource, mixesTabsAndSpaces, lines, count (by decide), count (by decide),
    count (by decide), count (by decide)]
  rfl

end Hint

namespace Source

/-- Whether the last line is ended. -/
def endsLine : Source → Bool
  | text t => t.endsLine
  | bytes b => b.getLast? == some 10

/-- The source with a line feed at its end. -/
def feed : Source → Source
  | text t => text (t ++ ['\n'])
  | bytes b => bytes (b ++ [10])

end Source

/-- A failure in a line of the source is reported the same with a line feed at the end. -/
theorem Failure.toError_concat_feed {f : Failure} {source text : Text} {w : TabWidth}
    (some : source ≠ []) (located : f.Located w (Reading.ended source)) :
    f.toError (source ++ ['\n']) text = f.toError source text := by
  obtain ⟨pos, content, found, -⟩ := located.exists_line
  have also : (source ++ ['\n']).lines[f.line - 1]? = Option.some content := by
    rw [Text.lines_concat_feed, List.getElem?_append_left (List.getElem?_eq_some_iff.mp found).1,
      found]
  have context : (source ++ ['\n']).lineAt? f.line = source.lineAt? f.line := by
    rw [Text.lineAt?_of_getElem? some pos found,
      Text.lineAt?_of_getElem? (List.append_ne_nil_of_left_ne_nil some _) pos also]
  rw [toError, toError, Hint.detect, Hint.detect, Hint.forSource_concat_feed, Option.bind_some,
    Option.bind_some, context]

/-- A longer text only matters for the ends that are cut to it. -/
theorem Tree.endOffset_eq_min {t : Tree} {length longer : Nat} (less : length ≤ longer)
    (within : ∀ token, t = leaf token → token.place.stop.offset ≤ length) :
    t.endOffset length = min (t.endOffset longer) length := by
  cases t with
  | leaf token => exact (Nat.min_eq_left (within token rfl)).symm
  | gap => exact (Nat.zero_min _).symm
  | node kind extent trees =>
    cases extent with
    | some e =>
      have cut : min e.stop.offset length = min (min e.stop.offset longer) length := by omega
      exact cut
    | none =>
      rw [endOffset, endOffset]
      split
      · exact (Nat.min_eq_right less).symm
      · exact (Nat.zero_min _).symm

namespace Reading

variable {r : Reading} {source : Text}

theorem ended_concat_feed (unended : source.endsLine = false) :
    ended (source ++ ['\n']) = ended source := by
  rw [ended, ended, unended, if_pos (by simp [Text.endsLine]), if_neg Bool.false_ne_true]

theorem outcome_concat_feed (vyper : r.Vyper) (unended : source.endsLine = false) :
    (r.parseText (source ++ ['\n'])).outcome = (r.parseText source).outcome := by
  rw [outcome_parseText, outcome_parseText, ended_concat_feed unended]
  cases read : r.read (ended source) with
  | ok result => rfl
  | error stop =>
    have some : source ≠ [] := by
      rintro rfl
      have clean := (parseText_nil vyper).1
      rw [Parse.errors, outcome_parseText, read] at clean
      cases clean
    exact congrArg Except.error
      (Failure.toError_concat_feed some (located_of_read (endsLine_ended source) read))

theorem encodingError_concat_feed {bytes : List UInt8} {e also : Utf8.Error}
    (same : also.offset = e.offset) (inside : e.offset ≤ bytes.length) :
    encodingError (bytes ++ [10]) also = encodingError bytes e := by
  have line (n : Nat) : ((bytes ++ [10]).drop (e.offset - n)).takeWhile (!· == 10) =
      (bytes.drop (e.offset - n)).takeWhile (!· == 10) := by
    rw [List.drop_append_of_le_length (Nat.le_trans (Nat.sub_le ..) inside)]
    exact Utf8.takeWhile_concat_feed _
  obtain ⟨offset, _, _⟩ := e
  obtain ⟨_, _, _⟩ := also
  obtain rfl := same
  unfold encodingError
  dsimp only at inside line ⊢
  rw [List.take_append_of_le_length inside, line]

/-- A source in any form is read the same. -/
theorem outcome_feed (vyper : r.Vyper) {source : Source} (unended : source.endsLine = false) :
    (r.parse source.feed).outcome = (r.parse source).outcome ∧
      (r.parse source.feed).text = (r.parse source).text ++ ['\n'] := by
  have text {t : Text} (unended : t.endsLine = false) :
      (r.parseText (t ++ ['\n'])).outcome = (r.parseText t).outcome ∧
        (r.parseText (t ++ ['\n'])).text = (r.parseText t).text ++ ['\n'] :=
    ⟨outcome_concat_feed vyper unended, by rw [text_parseText, text_parseText]⟩
  cases source with
  | text t => exact text unended
  | bytes b =>
    by_cases valid : ∃ t, b = Utf8.encode t
    · obtain ⟨t, rfl⟩ := valid
      rw [Source.feed, ← Utf8.encode_concat_feed, parse, parse, Utf8.decode_eq_ok_iff.mpr rfl,
        Utf8.decode_eq_ok_iff.mpr rfl]
      refine text (Bool.eq_false_iff.mpr fun ends => ?_)
      obtain ⟨front, rfl⟩ := List.getLast?_eq_some_iff.mp (beq_iff_eq.mp ends)
      rw [Source.endsLine, Utf8.encode_concat_feed, List.getLast?_concat] at unended
      cases unended
    · obtain ⟨e, also, decoded, later, same, inside⟩ :=
        Utf8.exists_decode_concat_feed (not_exists.mp valid)
      rw [Source.feed, parse, parse, decoded, later]
      exact ⟨congrArg Except.error (encodingError_concat_feed same inside),
        Utf8.decodeLossy_append b []⟩

end Reading

namespace Parser

variable {c : Config} {source : Source} {p : Parse}

/-- No leaf goes beyond the source. Where there is an error, there are no leaves. -/
theorem leaf_within
    (parsed : (Parser.empty.setLanguage (Artifact.language c)).parse source = .ok p)
    {token : SourceToken} (member : .leaf token ∈ p.root.nodes) :
    token.place.stop.offset ≤ p.text.length := by
  cases outcome : p.outcome with
  | ok tree =>
    obtain ⟨_, _, leaves, _⟩ := exists_settled parsed (by rw [Parse.errors, outcome])
    exact (leaves token (Tree.mem_leaves.mpr member)).2.2
  | error e =>
    rw [Parse.root, outcome] at member
    cases List.mem_singleton.mp member

/-- The last line break may be missing. With it or without, a source is parsed to the same tree,
so that its nodes are found at the same places, or fails with the same error. Only the ends of
nodes are cut to the source. -/
theorem parse_unended {q : Parse} (unended : source.endsLine = false)
    (parsed : (Parser.empty.setLanguage (Artifact.language c)).parse source = .ok p)
    (also : (Parser.empty.setLanguage (Artifact.language c)).parse source.feed = .ok q) :
    q.root.hasError = p.root.hasError ∧ q.sexp = p.sexp ∧ q.errors = p.errors ∧
      q.root = p.root ∧ q.text = p.text ++ ['\n'] ∧
      List.Forall₂ (fun s t => s.startOffset = t.startOffset ∧ s.startPoint = t.startPoint ∧
        s.endPoint = t.endPoint ∧
        s.endOffset p.text.length = min (t.endOffset q.text.length) p.text.length)
          p.root.nodes q.root.nodes := by
  have same : q.outcome = p.outcome ∧ q.text = p.text ++ ['\n'] := by
    cases parsed
    cases also
    exact Reading.outcome_feed (r := ⟨automaton, c.lexer, c.tabWidth⟩) rfl unended
  obtain ⟨outcome, text⟩ := same
  have root : q.root = p.root := by rw [Parse.root, Parse.root, outcome]
  refine ⟨by rw [root], by rw [Parse.sexp, Parse.sexp, root],
    by rw [Parse.errors, Parse.errors, outcome], root, text, ?_⟩
  rw [root, text]
  refine List.forall₂_same.mpr fun t member => ⟨rfl, rfl, rfl, ?_⟩
  refine Tree.endOffset_eq_min (by simp) ?_
  rintro token rfl
  exact leaf_within parsed member

theorem parse_unended_lines : ∃ p q : Parse,
    (Source.text "if a:\n b += c".toList).endsLine = false ∧
      (Parser.empty.setLanguage (Artifact.language .default)).parse
        (.text "if a:\n b += c".toList) = .ok p ∧
      (Parser.empty.setLanguage (Artifact.language .default)).parse (.text Sample.lines) = .ok q ∧
      p.root = Sample.tree ∧ q.root = p.root ∧ q.errors = p.errors := by
  have unended : (Source.text "if a:\n b += c".toList).endsLine = false := by decide
  obtain ⟨p, parsed, _, root, _⟩ := Sample.exists_parse "if a:\n b += c".toList (by decide)
  obtain ⟨q, also, _⟩ := Sample.exists_parse Sample.lines rfl
  obtain ⟨_, _, errors, same, _⟩ := parse_unended unended parsed also
  exact ⟨p, q, unended, parsed, also, root, same, errors⟩

end Parser

end VyperFront
