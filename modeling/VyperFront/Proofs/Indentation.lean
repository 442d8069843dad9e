import VyperFront.Proofs.Hint
import VyperFront.Proofs.Reader.Failure

/-! Hints about indentation. Each failure of indentation has its hint. If the source does not hold
the marks by which these are found, there is one other case in which one is given: after the header
of a block an indent is expected, so that whatever else comes there is taken for an indent. -/

namespace VyperFront

open Layout Stack

namespace Failure

variable {f : Failure} {source text mark : Text} {taken : List SourceToken} {t : SourceToken}
  {kinds : List Terminal} {history : Option (Option SourceToken)}

/-- Whether the failure is a token that is not expected. -/
def IsToken (f : Failure) : Prop := ∃ t expected history, f = .unexpectedToken t expected history

/-- Whether it is an indent that is not expected. -/
def IsIndent (f : Failure) : Prop :=
  ∃ t expected history, f = .unexpectedToken t expected history ∧ t.kind = .indent

theorem message_eq_indent_iff : f.message = "Unexpected indent" ↔ f.IsIndent := by
  have apart {s u : String} (other : ¬ s.toList <+: "Unexpected indent".toList) :
      s ++ u ≠ "Unexpected indent" := fun same =>
    other ⟨u.toList, by rw [← String.toList_append, same]⟩
  constructor
  · intro same
    cases f with
    | unexpectedToken t expected history =>
      refine ⟨t, expected, history, rfl, ?_⟩
      unfold message describe at same
      dsimp only at same
      split at same
      · exact absurd same (by decide)
      · next kind => exact kind
      · exact absurd same (by decide)
      · exact absurd same (by decide)
      · rw [← String.append_assoc] at same
        exact absurd same (apart (by decide))
    | unexpectedText c previous => exact absurd same (apart (by decide))
    | badDedent e =>
      have begins := @infix_report_badDedent [] e
      unfold message at same
      unfold report at begins
      dsimp only at same begins
      rw [same] at begins
      exact absurd begins (by decide)
  · rintro ⟨t, expected, history, rfl, kind⟩
    unfold message describe
    dsimp only
    rw [kind]
    rfl

private theorem not_infix_blank {blank : Text} (member : mark ∈ Hint.marks)
    (inside : ∀ c ∈ blank, c = ' ' ∨ c = '\t') : ¬ mark <:+: blank := by
  obtain ⟨c, listed, solid⟩ := Hint.exists_solid member
  simp only [List.mem_cons, List.not_mem_nil, or_false, not_or] at solid
  obtain ⟨-, -, -, space, tab⟩ := solid
  exact fun found => (inside c (found.mem listed)).elim space tab

private theorem blank_of_origin (origin : t.Origin text) (ends : text.endsLine = true)
    (kind : t.kind = .indent) : ∀ c ∈ t.text, c = ' ' ∨ c = '\t' := by
  cases origin with
  | part part => exact absurd kind part.kind
  | indent breaks _ =>
    obtain ⟨_, _, blank, _, _, _, last, _, _, inside, _⟩ := breaks.exists_gap ends
    rw [last]
    exact inside

private theorem marked_of_origin (origin : t.Origin text) (ends : text.endsLine = true)
    (member : mark ∈ Hint.marks) (found : mark <:+: t.text) : Hint.Marked text := by
  cases origin with
  | part part => exact ⟨mark, member, found.trans part.part⟩
  | indent breaks some =>
    have blank := blank_of_origin (.indent breaks some) ends rfl
    exact absurd found (not_infix_blank member blank)

/-- A mark in the report of anything but a bad dedent is in the text, or it stands for an indent:
for the one that is not expected, or for one that is. -/
theorem Follows.of_mark (follows : f.Follows text taken) (ends : text.endsLine = true)
    (other : ∀ e, f ≠ .badDedent e) (member : mark ∈ Hint.marks) (found : mark <:+: f.report text) :
    Hint.Marked text ∨
      mark = Hint.indentMark ∧ (f.IsIndent ∨ f.IsToken ∧ EndsHeader taken) := by
  cases f with
  | unexpectedToken t expected history =>
    have header := follows.indent_mem_iff
    rcases infix_of_report_token member found with ⟨same, kind | block | last⟩ | inside | last
    · exact .inr ⟨same, .inl ⟨t, expected, history, rfl, kind⟩⟩
    · exact .inr ⟨same, .inr ⟨⟨t, expected, history, rfl⟩, header.mp block⟩⟩
    · obtain ⟨u, previous, kind⟩ := last
      exact absurd kind (follows.before u previous).kind
    · exact .inl (marked_of_origin follows.origin ends member inside)
    · obtain ⟨u, previous, inside⟩ := last
      exact .inl ⟨mark, member, inside.trans (follows.before u previous).part⟩
  | unexpectedText c previous =>
    cases follows with
    | unexpectedText last =>
      rcases infix_of_report_text member found with inside | ⟨u, before, ⟨kind, _⟩ | inside⟩
      · exact .inl ⟨mark, member, inside⟩
      · exact absurd kind (last u before).kind
      · exact .inl ⟨mark, member, inside.trans (last u before).part⟩
  | badDedent e => exact absurd rfl (other e)

theorem Follows.indentMark_infix (follows : f.Follows text taken)
    (about : f.IsIndent ∨ f.IsToken ∧ EndsHeader taken) : Hint.indentMark <:+: f.report text := by
  rcases about with ⟨t, expected, history, rfl, kind⟩ | ⟨⟨t, expected, history, rfl⟩, header⟩
  · exact infix_report_of_indent (.inl kind)
  · exact infix_report_of_indent (.inr (follows.indent_mem_iff.mpr header))

theorem Follows.not_dedentMark_infix (follows : f.Follows text taken) (ends : text.endsLine = true)
    (indent : f.IsIndent) : ¬ Hint.dedentMark <:+: f.report text := by
  have member : Hint.dedentMark ∈ Hint.marks := by decide
  obtain ⟨t, expected, history, rfl, kind⟩ := indent
  intro found
  cases follows with
  | rejected origin shifts settles =>
    rcases infix_of_report_token member found with ⟨same, _⟩ | inside | ⟨u, none, _⟩
    · exact absurd same (by decide)
    · exact not_infix_blank member (blank_of_origin origin ends kind) inside
    · cases none
  | unwanted part => exact part.kind kind

/-- In a text without marks, only the report of a bad dedent has its mark. -/
theorem Follows.dedentMark_infix_iff (follows : f.Follows text taken)
    (ends : text.endsLine = true) (unmarked : ¬ Hint.Marked text) :
    Hint.dedentMark <:+: f.report text ↔ ∃ e, f = .badDedent e := by
  refine ⟨fun found => not_forall_not.mp fun other => ?_, ?_⟩
  · rcases follows.of_mark ends other (by decide) found with marked | ⟨same, _⟩
    · exact unmarked marked
    · exact absurd same (by decide)
  · rintro ⟨e, rfl⟩
    exact infix_report_badDedent e

/-- There, and where it is no bad dedent, a failure is taken for an indent if it is one or if a
block is expected. -/
theorem Follows.indentMark_infix_iff (follows : f.Follows text taken)
    (ends : text.endsLine = true) (unmarked : ¬ Hint.Marked text) :
    ¬ Hint.dedentMark <:+: f.report text ∧ Hint.indentMark <:+: f.report text ↔
      f.IsIndent ∨ f.IsToken ∧ EndsHeader taken := by
  rw [follows.dedentMark_infix_iff ends unmarked]
  constructor
  · rintro ⟨other, found⟩
    have other := not_exists.mp other
    exact ((follows.of_mark ends other (by decide) found).resolve_left unmarked).2
  · intro about
    refine ⟨?_, follows.indentMark_infix about⟩
    rintro ⟨e, rfl⟩
    rcases about with ⟨_, _, _, same, _⟩ | ⟨⟨_, _, _, same⟩, _⟩ <;> cases same

theorem suggestion_eq_iff {g : Hint} (about : g = .badDedent ∨ g = .unexpectedIndent) :
    (f.toError source text).suggestion = some g.suggestion ↔
      Hint.detect source (f.report text) (some (f.line : Int)) = some g := by
  rw [toError, Option.some.injEq, Hint.suggestion_eq_iff about]

theorem badDedent_suggestion_iff : (f.toError source text).suggestion = some Hint.badDedent.suggestion ↔
    Hint.dedentMark <:+: f.report text := by
  rw [suggestion_eq_iff (.inl rfl), Hint.detect_eq_badDedent_iff]

theorem indent_suggestion_iff :
    (f.toError source text).suggestion = some Hint.unexpectedIndent.suggestion ↔
      ¬ Hint.dedentMark <:+: f.report text ∧ Hint.indentMark <:+: f.report text := by
  rw [suggestion_eq_iff (.inr rfl), Hint.detect_eq_unexpectedIndent_iff]

end Failure

theorem Hint.marked_ended {source : Text} : Marked (Reading.ended source) ↔ Marked source := by
  rw [Reading.ended]
  split
  · rfl
  · refine exists_congr fun mark => and_congr_right fun member => ?_
    have some := ne_nil_of_mem member
    rw [Text.infix_append_cons_iff some (separators mark member _ (by decide)), List.infix_nil,
      or_iff_left some]

namespace Parser

/-- Hints about indentation. An unexpected indent and a bad dedent have their own hints. In a source
that does not hold the marks by which these are found, a bad dedent is the only failure with its
hint; the hint about an unexpected indent is also given for any other token that is not expected
directly after the colon of a header and a line break, and for no other failure. -/
theorem parse_indent_hints {c : Config} {source : Text} {p : Parse}
    (parsed : (Parser.empty.setLanguage (Artifact.language c)).parse (.text source) = .ok p)
    (fails : p.errors ≠ []) :
    ∃ (stop : Reading.Stop) (e : SyntaxError),
      (Artifact.language c).handle.reading.read (Reading.ended source) = .error stop ∧
      p.errors = [e] ∧
      (e.message = "Unexpected indent" → e.suggestion = some Hint.unexpectedIndent.suggestion) ∧
      ((∃ d, stop.failure = .badDedent d) → e.suggestion = some Hint.badDedent.suggestion) ∧
      (¬ Hint.Marked source →
        (e.suggestion = some Hint.badDedent.suggestion ↔ ∃ d, stop.failure = .badDedent d) ∧
        (e.suggestion = some Hint.unexpectedIndent.suggestion ↔
          e.message = "Unexpected indent" ∨
            (∃ t expected history, stop.failure = .unexpectedToken t expected history) ∧
            Stack.EndsHeader
              ((Artifact.language c).handle.reading.taken (Reading.ended source)))) := by
  obtain rfl := parsed_iff.mp parsed
  rcases @Reading.exists_stop _ (.text source) fails with ⟨_, _, none, _⟩ | ⟨stop, read, errors⟩
  · cases none
  rw [Reading.parse, Reading.text_parseText] at read errors
  have follows := Reading.follows_of_read (r := ⟨automaton, c.lexer, c.tabWidth⟩) rfl read
  have ends := Reading.endsLine_ended source
  refine ⟨stop, _, read, errors, fun message => ?_, ?_, fun unmarked => ?_⟩
  · have indent := Failure.message_eq_indent_iff.mp message
    exact Failure.indent_suggestion_iff.mpr
      ⟨follows.not_dedentMark_infix ends indent, follows.indentMark_infix (.inl indent)⟩
  · rintro ⟨d, same⟩
    rw [same]
    exact Failure.badDedent_suggestion_iff.mpr (Failure.infix_report_badDedent d)
  · have unmarked := mt Hint.marked_ended.mp unmarked
    have message : stop.failure.message = "Unexpected indent" ↔ stop.failure.IsIndent :=
      Failure.message_eq_indent_iff
    refine ⟨?_, ?_⟩
    · rw [Failure.badDedent_suggestion_iff, follows.dedentMark_infix_iff ends unmarked]
    · rw [Failure.indent_suggestion_iff, follows.indentMark_infix_iff ends unmarked]
      exact or_congr_left message.symm

theorem parse_indent_hints_indented : ∃ p : Parse,
    (Parser.empty.setLanguage (Artifact.language .default)).parse
        (.text ('\n' :: " pass\n".toList)) = .ok p ∧
      p.errors ≠ [] ∧ ¬ Hint.Marked ('\n' :: " pass\n".toList) ∧
      ∃ (stop : Reading.Stop) (e : SyntaxError), p.errors = [e] ∧
        (Artifact.language .default).handle.reading.read ('\n' :: " pass\n".toList) = .error stop ∧
        (e.suggestion = some Hint.badDedent.suggestion ↔ ∃ d, stop.failure = .badDedent d) := by
  have fails := Sample.errors_indented
  have unmarked : ¬ Hint.Marked ('\n' :: " pass\n".toList) := by decide
  obtain ⟨stop, e, read, errors, _, _, hints⟩ := parse_indent_hints (parsed_iff.mpr rfl) fails
  exact ⟨_, parsed_iff.mpr rfl, fails, unmarked, stop, e, errors, read, (hints unmarked).1⟩

/-- A text that is no Vyper is taken for an indent if it holds the mark. -/
theorem parse_indent_hints_marked : ∃ (p : Parse) (e : SyntaxError),
    (Parser.empty.setLanguage (Artifact.language .default)).parse
        (.text "$_INDENT\n".toList) = .ok p ∧
      p.errors = [e] ∧ e.message = "Unexpected character '$'" ∧
      e.suggestion = some Hint.unexpectedIndent.suggestion := by
  have nothing : Lexer.piece .spelled "$_INDENT\n".toList = .none := by
    rw [Lexer.piece_eq]
    rfl
  have errors := @Reading.errors_of_none
    ⟨automaton, Config.default.lexer, Config.default.tabWidth⟩ "$_INDENT\n".toList rfl nothing
  refine ⟨_, _, parsed_iff.mpr rfl, errors, by decide, ?_⟩
  exact Failure.indent_suggestion_iff.mpr (by decide)

end Parser

/-! Where unexpected indents are reported. The place of an indent is that of the run of line breaks
that ends with it. So the line that is reported is not the one that is indented, but the one that
the run begins on, which is always before it. -/

namespace Reading

variable {r : Reading} {text blanks rest : Text}

theorem exists_rejects_indent (vyper : r.Vyper) {stack : Stack} {p : Progress} {t u : SourceToken}
    (feeds : Feeds [] t (.shifted stack)) (machine : p.machine = stack.machine)
    (indent : u.kind = .indent) :
    ∃ expected notes, r.feed p u = .error ⟨.unexpectedToken u expected none, notes⟩ := by
  obtain ⟨sound, single⟩ := feeds.right .nil
  have inside : u.kind ≠ .endOfInput := indent ▸ Terminal.noConfusion
  cases fed : r.feed p u with
  | ok q =>
    obtain ⟨_, moves, _⟩ := (feed_eq_ok_iff vyper sound machine inside).mp fed
    obtain ⟨front, _, _, two, _⟩ := (moves.onHeader sound indent).endsHeader
    have length := congrArg List.length (single.symm.trans two)
    simp [tokens, derivations, Derivation.yields] at length
  | error stop =>
    obtain ⟨failure, notes⟩ := stop
    obtain ⟨expected, same⟩ := feed_eq_error fed
    exact ⟨expected, notes, by rw [← same]⟩

/-- A text that begins with line breaks before an indented line cannot be read. The indent is
unexpected, and stands where the line breaks do. -/
theorem read_of_first_break (vyper : r.Vyper) {t : SourceToken} {cursor : Lexer.Cursor}
    (first : Lexer.next (r.wants []) ⟨text, .start⟩ = .token t cursor) (newline : t.kind = .newline)
    (breaks : '\n' ∈ t.text) (deeper : 0 < widthAfter r.tabWidth t) :
    ∃ expected notes, r.read text = .error ⟨.unexpectedToken
      ⟨.indent, Text.lastLine t.text, t.place⟩ expected none, notes⟩ := by
  obtain ⟨stack, feeds, _⟩ := exists_feeds_newline newline
  have fed : r.feed ⟨.start, none, []⟩ t = .ok ⟨stack.machine, some t, []⟩ :=
    (feed_eq_ok_iff vyper .nil rfl (newline ▸ Terminal.noConfusion)).mpr ⟨stack, feeds, rfl⟩
  have opens : State.start.current < r.tabWidth.measure (Text.lastLine t.text) := deeper
  have events : (indentation r.tabWidth .start t).1 = [.note (.found (widthAfter r.tabWidth t) 0),
      .note (.opened (widthAfter r.tabWidth t)),
      .token ⟨.indent, Text.lastLine t.text, t.place⟩] := by
    rw [indentation, if_pos opens]
    rfl
  obtain ⟨expected, notes, rejected⟩ := @exists_rejects_indent r vyper stack
    ⟨stack.machine, some t, [.opened (widthAfter r.tabWidth t), .found (widthAfter r.tabWidth t) 0]⟩
    t ⟨.indent, Text.lastLine t.text, t.place⟩ feeds rfl rfl
  have stops : r.feedAll ⟨.start, none, []⟩ (.token t :: (indentation r.tabWidth .start t).1) =
      .error ⟨.unexpectedToken ⟨.indent, Text.lastLine t.text, t.place⟩ expected none, notes⟩ := by
    rw [events, feedAll, fed]
    exact congrArg (· >>= (r.feedAll · [])) rejected
  refine ⟨expected, notes, ?_⟩
  have first : Lexer.next (r.wanted .start) ⟨text, .start⟩ = .token t cursor := first
  rw [read, run, first]
  dsimp only
  rw [step_of_indents ⟨by rw [newline]; rfl, rfl, breaks⟩, stops]
  rfl

theorem getElem?_lines_indented {source before gap blank after : Text}
    (whole : ended source = before ++ (gap ++ '\n' :: (blank ++ after))) (deeper : blank ≠ [])
    (one : '\n' ∉ blank) :
    source.lines[before.count '\n' + gap.count '\n' + 1]? =
      some (blank ++ after.takeWhile (· ≠ '\n')) := by
  have assoc : ended source = (before ++ gap ++ '\n' :: blank) ++ after := by
    rw [whole]
    simp
  have last : Text.lastLine (before ++ gap ++ '\n' :: blank) = blank := by
    rw [Text.lastLine_append_feed, Text.lastLine_of_not_mem one]
  have count : (before ++ gap ++ '\n' :: blank).count '\n' =
      before.count '\n' + gap.count '\n' + 1 := by
    rw [List.count_append, List.count_append, List.count_cons_self, List.count_eq_zero.mpr one]
  -- The text does not end with the indentation.
  have rest : after ≠ [] := by
    rintro rfl
    have ends := endsLine_ended source
    rw [assoc, List.append_nil] at ends
    exact deeper (last.symm.trans (Text.lastLine_of_endsLine ends))
  rw [← count, getElem?_lines_ended assoc rest, last]

end Reading

namespace Parser

/-- An unexpected indent is reported on the line on which the line breaks before it begin. After
these comes the line that is indented, which is always a later one. -/
theorem parse_indent_line {c : Config} {source : Text} {p : Parse} {e : SyntaxError}
    (parsed : (Parser.empty.setLanguage (Artifact.language c)).parse (.text source) = .ok p)
    (member : e ∈ p.errors) (indent : e.message = "Unexpected indent") :
    ∃ before gap blank after : Text,
      Reading.ended source = before ++ (gap ++ '\n' :: (blank ++ after)) ∧
      Lexeme.newline (gap ++ '\n' :: (blank ++ after)) = some (gap ++ '\n' :: blank, after) ∧
      blank ≠ [] ∧ (∀ c ∈ blank, c = ' ' ∨ c = '\t') ∧ (∀ c ∈ after.head?, c ≠ ' ' ∧ c ≠ '\t') ∧
      e.line = some ((before.count '\n' + 1 : Nat) : Int) ∧
      e.column = some (((Text.lastLine before).length + 1 : Nat) : Int) ∧
      (∃ line, source.lines[before.count '\n']? = some line ∧
        e.context = some (String.ofList line.trim) ∧
        line = Text.lastLine before ++ gap.takeWhile (· ≠ '\n')) ∧
      source.lines[before.count '\n' + gap.count '\n' + 1]? =
        some (blank ++ after.takeWhile (· ≠ '\n')) := by
  obtain rfl := parsed_iff.mp parsed
  have fails : (Reading.parseText _ source).errors ≠ [] := List.ne_nil_of_mem member
  rcases @Reading.exists_stop _ (.text source) fails with ⟨_, _, none, _⟩ | ⟨stop, read, errors⟩
  · cases none
  rw [Reading.parse, Reading.text_parseText] at read errors
  rw [errors, List.mem_singleton] at member
  subst member
  have ends := Reading.endsLine_ended source
  have follows := Reading.follows_of_read (r := ⟨automaton, c.lexer, c.tabWidth⟩) rfl read
  obtain ⟨t, expected, history, failure, kind⟩ := Failure.message_eq_indent_iff.mp indent
  rw [failure] at follows ⊢
  have some : source ≠ [] := by
    rintro rfl
    exact fails (@Reading.parseText_nil ⟨automaton, c.lexer, c.tabWidth⟩ rfl).1
  cases follows.origin with
  | part part => exact absurd kind part.kind
  | @indent t breaks deeper =>
    obtain ⟨before, gap, blank, after, whole, _, last, place, found, inside, stops⟩ :=
      breaks.exists_gap ends
    rw [last] at deeper
    have more : gap ++ '\n' :: (blank ++ after) ≠ [] :=
      List.append_ne_nil_of_right_ne_nil _ (List.cons_ne_nil _ _)
    have here := Reading.getElem?_lines_ended whole more
    have one : '\n' ∉ blank := fun feed => by simpa using inside _ feed
    have line : (Place.start.advance before).line = before.count '\n' + 1 :=
      (Place.line_advance ..).trans (Nat.add_comm ..)
    refine ⟨before, gap, blank, after, whole, found, deeper, inside, stops, ?_, ?_,
      ⟨_, here, ?_, ?_⟩, Reading.getElem?_lines_indented whole deeper one⟩
    · rw [Failure.toError, Failure.line, place, line]
    · rw [Failure.toError, Failure.column, place, Place.column_advance_start]
    · have number : 1 ≤ before.count '\n' + 1 := Nat.le_add_left ..
      have found := Text.lineAt?_of_getElem? some number (by rwa [Nat.add_sub_cancel])
      rw [Failure.toError, Failure.line, place, line, Option.bind_some, found]
      rfl
    · rw [Text.takeWhile_append_feed]

/-- A source whose second line is indented has an error on the first one. -/
private theorem exists_error_feed : ∃ e : SyntaxError,
    (Reading.parseText ⟨automaton, Config.default.lexer, Config.default.tabWidth⟩
      ('\n' :: " pass\n".toList)).errors = [e] ∧
      e.message = "Unexpected indent" ∧ e.line = some 1 ∧ e.context = some "" := by
  have taken : Lexeme.moreLines .indentation " pass\n".toList = ([' '], "pass\n".toList) := by decide
  have first := Reading.next_feed
    (Reading.contains_wants_newline ⟨automaton, Config.default.lexer, Config.default.tabWidth⟩ [])
    taken
  obtain ⟨expected, notes, read⟩ := Reading.read_of_first_break (by rfl) first rfl (by decide)
    (by decide)
  have context : ((Text.lineAt? ('\n' :: " pass\n".toList) 1).map String.ofList) = some "" := by
    decide
  exact ⟨_, Reading.errors_of_read read, rfl, rfl, context⟩

theorem parse_indent_line_second : ∃ (p : Parse) (e : SyntaxError),
    (Parser.empty.setLanguage (Artifact.language .default)).parse
        (.text ('\n' :: " pass\n".toList)) = .ok p ∧
      e ∈ p.errors ∧ e.message = "Unexpected indent" ∧
      ∃ before gap line : Text, e.line = some ((before.count '\n' + 1 : Nat) : Int) ∧
        (Text.lines ('\n' :: " pass\n".toList))[before.count '\n' + gap.count '\n' + 1]? =
          some line := by
  obtain ⟨e, errors, indent, _⟩ := exists_error_feed
  have member := errors ▸ List.mem_singleton_self e
  obtain ⟨before, gap, blank, after, _, _, _, _, _, line, _, _, next⟩ :=
    parse_indent_line (parsed_iff.mpr rfl) member indent
  exact ⟨_, e, parsed_iff.mpr rfl, member, indent, before, gap, _, line, next⟩

/-- The line that is indented there is the second one, not the one that is reported. -/
theorem parse_indent_line_before : ∃ (p : Parse) (e : SyntaxError),
    (Parser.empty.setLanguage (Artifact.language .default)).parse
        (.text ('\n' :: " pass\n".toList)) = .ok p ∧
      p.errors = [e] ∧ e.message = "Unexpected indent" ∧ e.line = some 1 ∧ e.context = some "" ∧
      Text.lines ('\n' :: " pass\n".toList) = [[], " pass".toList, []] := by
  obtain ⟨e, errors, indent, line, context⟩ := exists_error_feed
  exact ⟨_, e, parsed_iff.mpr rfl, errors, indent, line, context, by decide⟩

end Parser

end VyperFront
