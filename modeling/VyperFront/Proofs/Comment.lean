import VyperFront.Proofs.CarriageReturn
import VyperFront.Proofs.Hint
import VyperFront.Proofs.Reader.Failure

/-! Sources without their comments. What is in the comments makes no difference for the tokens, so
that a source is rejected without them just where it is with them. Only hints can come from
comments, if these hold brackets or the marks by which hints are found. -/

namespace VyperFront

open Layout Text
open Lexeme (Quoteless)

namespace Text

variable {t front : Text}

theorem closed_append (first : '#' ∉ lastLine front) (last : '#' ∉ lastLine t) :
    '#' ∉ lastLine (front ++ t) := by
  by_cases feed : '\n' ∈ t
  · obtain ⟨line, same⟩ := exists_lastLine feed
    rwa [same, ← List.append_assoc, lastLine_append_feed,
      lastLine_of_not_mem (feed_not_mem_lastLine t)]
  · rw [lastLine_of_not_mem feed] at last
    rw [lastLine_append_of_not_mem feed, List.mem_append, not_or]
    exact ⟨first, last⟩

end Text

theorem Place.advance_uncommented {t : Text} (closed : '#' ∉ lastLine t) {p q : Place}
    (line : q.line = p.line) (column : q.column = p.column) :
    (q.advance (uncommented t)).line = (p.advance t).line ∧
      (q.advance (uncommented t)).column = (p.advance t).column := by
  constructor
  · rw [line_advance, line_advance, line, uncommented, count_feed_uncommentedFrom]
  · rw [column_advance, column_advance, lastLine_uncommented closed, column]
    by_cases feed : '\n' ∈ t
    · rw [if_pos feed, if_pos (feed_mem_uncommented_iff.mpr feed)]
    · rw [lastLine_of_not_mem feed] at closed
      rw [uncommented_of_not_mem closed]

namespace Recast

/-- The tokens of a text without its comments. No token ends in a comment. -/
def uncomment (text : Text) : Recast where
  text t := if '#' ∈ lastLine t then t else uncommented t
  place p := ⟨(uncommented (text.take p.offset)).length, p.line, p.column⟩

variable {text t : Text}

theorem text_of_closed (closed : '#' ∉ lastLine t) : (uncomment text).text t = uncommented t :=
  if_neg closed

theorem text_cases (text t : Text) : (uncomment text).text t = t ∨
    '#' ∉ lastLine t ∧ (uncomment text).text t = uncommented t := by
  by_cases mark : '#' ∈ lastLine t
  · exact .inl (if_pos mark)
  · exact .inr ⟨mark, if_neg mark⟩

theorem text_of_line (one : '\n' ∉ t) : (uncomment text).text t = t := by
  refine (text_cases text t).elim id fun ⟨closed, same⟩ => same.trans ?_
  rw [lastLine_of_not_mem one] at closed
  exact uncommented_of_not_mem closed

theorem uncomment_token {u : SourceToken} (one : '\n' ∉ u.text) :
    ((uncomment text).token u).text = u.text := @text_of_line text u.text one

theorem keeps_uncomment (text : Text) : (uncomment text).Keeps where
  empty := rfl
  breaks t := by
    rcases text_cases text t with same | ⟨closed, same⟩
    · rw [same]
    · rw [same, feed_mem_uncommented_iff]
  lastLine t := by
    rw [text_of_line (feed_not_mem_lastLine t)]
    rcases text_cases text t with same | ⟨closed, same⟩
    · rw [same]
    · rw [same, lastLine_uncommented closed]
  width w t := by rw [text_of_line (feed_not_mem_lastLine t)]

/-- The cursor is in the text, and not in a comment. -/
def Outside (text : Text) (c : Lexer.Cursor) : Prop :=
  ∃ before, text = before ++ c.rest ∧ c.place.offset = before.length ∧ '#' ∉ lastLine before

theorem outside_start (text : Text) : Outside text ⟨text, .start⟩ :=
  ⟨[], rfl, rfl, List.not_mem_nil⟩

theorem closed_of_ends (ends : t = [] ∨ t.endsLine = true) : '#' ∉ lastLine t := by
  rcases ends with rfl | ends
  · exact List.not_mem_nil
  · rw [lastLine_of_endsLine ends]
    exact List.not_mem_nil

theorem Outside.rest {c : Lexer.Cursor} (inside : Outside text c) (plain : Quoteless text)
    (ends : text.endsLine = true) : Quoteless c.rest ∧ (c.rest = [] ∨ c.rest.endsLine = true) := by
  obtain ⟨before, whole, -⟩ := inside
  refine ⟨fun d member => plain d (whole ▸ List.mem_append_right before member), ?_⟩
  by_cases empty : c.rest = []
  · exact .inl empty
  · rw [whole, endsLine, List.getLast?_append_of_ne_nil _ empty] at ends
    exact .inr ends

theorem Outside.reads {c : Lexer.Cursor} {wanted : TerminalSet} {lexeme rest : Text}
    (inside : Outside text c) (plain : Quoteless text) (ends : text.endsLine = true)
    (reads : (Lexer.piece wanted c.rest).Reads lexeme rest) :
    '#' ∉ lastLine lexeme ∧ Outside text ⟨rest, c.place.advance lexeme⟩ := by
  obtain ⟨apart, left⟩ := inside.rest plain ends
  obtain ⟨some, splits⟩ := reads.splits
  have closed := Lexer.closed_of_reads apart (left.resolve_left ?_) reads
  · obtain ⟨before, whole, offset, outside⟩ := inside
    refine ⟨closed, before ++ lexeme, ?_, ?_, closed_append outside closed⟩
    · rw [whole, ← splits, List.append_assoc]
    · rw [Place.offset_advance, offset, List.length_append]
  · rw [← splits]
    exact List.append_ne_nil_of_left_ne_nil some rest

theorem carries_uncomment (plain : Quoteless text) (ends : text.endsLine = true) :
    (uncomment text).Carries (Outside text) where
  empty {t} := by
    rcases text_cases text t with same | ⟨closed, same⟩
    · rw [same]
    · rw [same, uncommented_eq_nil_iff]
  piece {c} inside wanted := by
    obtain ⟨apart, left⟩ := inside.rest plain ends
    rw [text_of_closed (closed_of_ends left), Lexer.piece_uncommented apart]
    refine Lexer.Piece.map_congr fun {lexeme rest} reads => ?_
    obtain ⟨closed, later⟩ := inside.reads plain ends reads
    rw [text_of_closed closed, text_of_closed (closed_of_ends (later.rest plain ends).2)]
    rfl
  goes {c wanted lexeme rest} inside reads splits _ := by
    obtain ⟨closed, later⟩ := inside.reads plain ends reads
    refine ⟨later, ?_⟩
    obtain ⟨before, rfl, offset, outside⟩ := inside
    have here : (before ++ c.rest).take c.place.offset = before := by rw [offset, List.take_left]
    have there : (before ++ c.rest).take (c.place.advance lexeme).offset = before ++ lexeme := by
      rw [Place.offset_advance, offset, ← splits, ← List.append_assoc, ← List.length_append,
        List.take_left]
    obtain ⟨line, column⟩ := Place.advance_uncommented closed
      (p := c.place) (q := (uncomment (before ++ c.rest)).place c.place) rfl rfl
    have characters := Place.offset_advance ((uncomment (before ++ c.rest)).place c.place)
      (uncommented lexeme)
    rw [text_of_closed closed]
    simp only [uncomment, here, there, uncommented_append outside, List.length_append]
      at line column characters ⊢
    rw [← characters, ← line, ← column]

end Recast

namespace Failure

open Hint

variable {f : Failure} {text mark before rest : Text} {taken : List SourceToken} {t : SourceToken}
  {previous : Option SourceToken}

theorem newline_or_line (origin : t.Origin text) (plain : Quoteless text) :
    t.kind = .newline ∨ '\n' ∉ t.text := by
  cases origin with
  | part part => exact or_iff_not_imp_left.mpr fun other => part.line plain other
  | indent => exact .inr (feed_not_mem_lastLine _)

theorem describe_uncomment (origin : t.Origin text) (plain : Quoteless text) :
    describe ((Recast.uncomment text).token t) = describe t := by
  unfold describe
  rw [Recast.kind_token]
  rcases newline_or_line origin plain with newline | one
  · rw [newline]
  · rw [Recast.uncomment_token one]

theorem message_uncomment (follows : f.Follows text taken) (plain : Quoteless text) :
    (f.recast (.uncomment text)).message = f.message := by
  cases f with
  | unexpectedToken t expected history =>
    exact congrArg ("Unexpected " ++ ·) (describe_uncomment follows.origin plain)
  | unexpectedText c previous =>
    have first : ((Recast.uncomment text).text c.rest).take 1 = c.rest.take 1 := by
      rcases Recast.text_cases text c.rest with same | ⟨-, same⟩
      · rw [same]
      · rw [same, List.take_one, List.take_one, Lexeme.head?_uncommented]
    exact congrArg (fun t => "Unexpected character " ++ String.ofList (Text.quoted t)) first
  | badDedent e => rfl

/-- In a run of line breaks a mark is in a comment. -/
theorem not_infix_breaks (member : mark ∈ marks) (part : t.PartOf text)
    (quiet : ∀ line ∈ text.lines, ¬ Marked (comment line)) (newline : t.kind = .newline) :
    ¬ mark <:+: uncommented t.text ∧ ¬ mark <:+: t.text := by
  obtain ⟨c, inside, other⟩ := exists_solid member
  have apart := separators mark member
  obtain ⟨after, found⟩ := part.breaks newline
  have absent : ¬ mark <:+: uncommented t.text := fun found' =>
    other (Lexeme.mem_of_mem_newline found c (found'.mem inside))
  refine ⟨absent, ?_⟩
  rwa [← infix_uncommented_iff (ne_nil_of_mem member) (apart _ (by decide)) (apart _ (by decide))]
  intro line listed within
  obtain ⟨longer, there, part⟩ := exists_comment_of_infix part.part listed
  exact quiet longer there ⟨mark, member, within.trans part⟩

theorem mention_uncomment (member : mark ∈ marks) (plain : Quoteless text)
    (quiet : ∀ line ∈ text.lines, ¬ Marked (comment line)) (origin : t.Origin text) :
    mark <:+: mention ((Recast.uncomment text).token t) ↔ mark <:+: mention t := by
  have apart {u : SourceToken} (newline : u.kind = .newline) (absent : ¬ mark <:+: u.text) :
      ¬ mark <:+: mention u := by
    intro found
    rw [← List.append_nil (mention u)] at found
    rcases infix_of_mention member found with ⟨kind, -⟩ | inside | none
    · rw [newline] at kind
      cases kind
    · exact absent inside
    · exact ne_nil_of_mem member (List.infix_nil.mp none)
  rcases newline_or_line origin plain with newline | one
  · cases origin with
    | indent => cases newline
    | part part =>
      obtain ⟨without, absent⟩ := not_infix_breaks member part quiet newline
      refine iff_of_false (apart newline ?_) (apart newline absent)
      have cases : ((Recast.uncomment text).token t).text = t.text ∨
          ((Recast.uncomment text).token t).text = uncommented t.text :=
        (Recast.text_cases text t.text).imp_right And.right
      rcases cases with same | same
      · rwa [same]
      · rwa [same]
  · rw [mention, mention, Recast.kind_token, Recast.uncomment_token one]

theorem mentionPrevious_uncomment (member : mark ∈ marks) (plain : Quoteless text)
    (quiet : ∀ line ∈ text.lines, ¬ Marked (comment line)) (last : ∀ u ∈ previous, u.PartOf text) :
    mark <:+: mentionPrevious (previous.map (Recast.uncomment text).token) ↔
      mark <:+: mentionPrevious previous := by
  cases previous with
  | none => rfl
  | some t => exact mention_uncomment member plain quiet (.part (last t rfl))

theorem feed_not_mem_excerpt (text : Text) (offset : Nat) : '\n' ∉ excerpt text offset := by
  rw [excerpt, List.mem_append, not_or]
  refine ⟨feed_not_mem_lastLine _, fun feed => ?_⟩
  exact absurd (List.mem_takeWhile_imp feed) (by decide)

theorem excerpt_append (before rest : Text) : excerpt (before ++ rest) before.length =
    ((before.reverse.takeWhile (· ≠ '\n')).take reach).reverse ++
      (rest.takeWhile (· ≠ '\n')).take reach := by
  have left : (before ++ rest).slice (before.length - reach) before.length =
      before.drop (before.length - reach) := by
    rw [slice, List.drop_append_of_le_length (Nat.sub_le ..), ← List.length_drop, List.take_left]
  have right : (before ++ rest).slice before.length (before.length + reach) = rest.take reach := by
    rw [slice, List.drop_left, Nat.add_sub_cancel_left]
  rw [excerpt, left, right, lastLine, ← List.take_reverse, List.take_takeWhile, List.take_takeWhile]

theorem cut_take (line : Text) (count : Nat) : (cut line).take count = cut (line.take count) := by
  rcases comment_cases line with none | ⟨code, rest, rfl, front⟩
  · rw [cut_of_not_mem none, cut_of_not_mem fun mark => none (List.mem_of_mem_take mark)]
  · rw [cut_append front]
    by_cases short : count ≤ code.length
    · rw [List.take_append_of_le_length short, List.take_append_of_le_length short,
        cut_of_not_mem fun mark => front (List.mem_of_mem_take mark)]
    · obtain ⟨more, rfl⟩ := Nat.exists_eq_add_of_lt (Nat.lt_of_not_le short)
      rw [Nat.add_assoc, List.take_length_add_append, List.take_length_add_append,
        List.take_succ_cons, List.take_succ_cons, cut_append front, List.take_nil]

/-- Outside of comments, without them the same is shown up to the next one. -/
theorem excerpt_uncommented (outside : '#' ∉ lastLine before) (rest : Text) :
    excerpt (uncommented before ++ uncommented rest) (uncommented before).length =
      cut (excerpt (before ++ rest) before.length) := by
  have left := congrArg List.reverse (lastLine_uncommented outside)
  rw [lastLine, lastLine, List.reverse_reverse, List.reverse_reverse] at left
  have right : (uncommented rest).takeWhile (· ≠ '\n') = cut (rest.takeWhile (· ≠ '\n')) := by
    have first := head?_lines (uncommented rest)
    rw [lines_uncommented, List.getElem?_map, head?_lines, Option.map_some] at first
    exact (Option.some.inj first).symm
  have plain : '#' ∉ ((before.reverse.takeWhile (· ≠ '\n')).take reach).reverse := by
    intro mark
    exact outside (List.mem_reverse.mpr (List.mem_of_mem_take (List.mem_reverse.mp mark)))
  rw [excerpt_append, excerpt_append, left, right, cut_take, cut_append_of_not_mem plain]

theorem excerpt_uncomment (member : mark ∈ marks)
    (quiet : ∀ line ∈ (before ++ rest).lines, ¬ Marked (comment line))
    (outside : '#' ∉ lastLine before) :
    mark <:+: excerpt (uncommented before ++ uncommented rest) (uncommented before).length ↔
      mark <:+: excerpt (before ++ rest) before.length := by
  have parts := @infix_iff_cut (excerpt (before ++ rest) before.length) mark
    (ne_nil_of_mem member) (separators mark member '#' (by decide))
  rw [excerpt_uncommented outside, parts, or_iff_left]
  intro inside
  have one : excerpt (before ++ rest) before.length ∈ (excerpt (before ++ rest) before.length).lines := by
    rw [lines_of_not_mem (feed_not_mem_excerpt _ _)]
    exact List.mem_singleton_self _
  obtain ⟨longer, listed, part⟩ := exists_comment_of_infix (infix_excerpt _ _) one
  exact quiet longer listed ⟨mark, member, inside.trans part⟩

/-- Marks in the report are there without the comments, if none is in a comment. -/
theorem infix_report_uncomment (member : mark ∈ marks) (plain : Quoteless text)
    (quiet : ∀ line ∈ text.lines, ¬ Marked (comment line)) (follows : f.Follows text taken)
    (outside : f.Keeps (Recast.Outside text)) :
    mark <:+: (f.recast (.uncomment text)).report (uncommented text) ↔ mark <:+: f.report text := by
  cases f with
  | unexpectedToken t expected history =>
    have last := mentionPrevious_uncomment member plain quiet follows.before
    have previous : (history.map (Option.map (Recast.uncomment text).token)).bind id =
        (history.bind id).map (Recast.uncomment text).token := by
      cases history <;> rfl
    rw [← previous] at last
    have here := mention_uncomment member plain quiet follows.origin
    rw [Failure.recast, infix_report_token_iff member, infix_report_token_iff member, here, last]
  | unexpectedText c previous =>
    cases follows with
    | unexpectedText before =>
      have last := mentionPrevious_uncomment member plain quiet before
      obtain ⟨before, whole, offset, closed⟩ := outside
      rw [Failure.recast, infix_report_text_iff member, infix_report_text_iff member, last]
      have here : ((Recast.uncomment text).place c.place).offset = (uncommented before).length := by
        have front : text.take c.place.offset = before := by rw [offset, whole, List.take_left]
        exact congrArg (fun t => (uncommented t).length) front
      refine or_congr_left ?_
      dsimp only [Lexer.Cursor.recast]
      rw [here, offset]
      subst whole
      rw [uncommented_append closed, excerpt_uncomment member quiet closed]
  | badDedent e => rfl

end Failure

namespace Reading

variable {r : Reading} {source text : Text} {stop : Stop}

theorem uncommented_ended (source : Text) : uncommented (ended source) = ended (uncommented source) := by
  have same : (uncommented source).endsLine = source.endsLine := endsLine_uncommentedFrom false source
  rw [ended, ended, same]
  split
  · rfl
  · exact uncommentedFrom_append_feed false source []

theorem quoteless_ended (plain : Quoteless source) : Quoteless (ended source) := by
  intro c member
  rw [ended] at member
  split at member
  · exact plain c member
  · rcases List.mem_append.mp member with inside | feed
    · exact plain c inside
    · rw [List.mem_singleton.mp feed]
      rfl

theorem quiet_ended (silent : Hint.Silent source) :
    ∀ line ∈ (ended source).lines, ¬ Hint.Marked (comment line) := by
  intro line listed
  rw [ended] at listed
  split at listed
  · exact (silent line listed).2
  · rw [lines_concat_feed, List.mem_append, List.mem_singleton] at listed
    rcases listed with inside | rfl
    · exact (silent line inside).2
    · decide

/-- Reading the text without the comments comes to the same, but for these. -/
theorem read_uncommented (plain : Quoteless text) (ends : text.endsLine = true) :
    r.read (uncommented text) = recastResult (.uncomment text) (r.read text) := by
  have closed := Recast.closed_of_ends (.inr ends)
  have same : (Recast.uncomment text).text text = uncommented text := Recast.text_of_closed closed
  have enough : ((Recast.uncomment text).text text).length < (uncommented text).length + 1 := by
    rw [same]
    exact Nat.lt_succ_self _
  have recast := @run_recast _ _ r ⟨.start, none, []⟩ .start ⟨text, .start⟩ none
    (Recast.carries_uncomment plain ends) (Recast.keeps_uncomment text) rfl _ _
    (Recast.outside_start text) (Nat.lt_succ_self _) enough
  rw [Lexer.Cursor.recast, same] at recast
  exact recast

theorem outside_of_read (plain : Quoteless text) (ends : text.endsLine = true)
    (fails : r.read text = .error stop) : stop.failure.Keeps (Recast.Outside text) :=
  (failsAfter_of_read fails).keeps
    (fun inside => (Lexer.next_recast (Recast.carries_uncomment plain ends) inside _).2)
    (Recast.outside_start text)

/-- Without the comments a source is rejected with the same message, in the same place. If the
comments are silent, the suggestion is the same, too. -/
theorem parseText_uncommented (vyper : r.Vyper) (plain : Quoteless source)
    (fails : (r.parseText source).errors ≠ []) :
    ∃ e f : SyntaxError, (r.parseText source).errors = [e] ∧
      (r.parseText (uncommented source)).errors = [f] ∧
      f.message = e.message ∧ f.line = e.line ∧ f.column = e.column ∧
      (Hint.Silent source → f.suggestion = e.suggestion) := by
  rcases @exists_stop r (.text source) fails with ⟨_, _, none, _⟩ | ⟨stop, read, errors⟩
  · cases none
  rw [parse, text_parseText] at read errors
  have ends := endsLine_ended source
  have quoteless := quoteless_ended plain
  have follows := follows_of_read vyper read
  have outside := outside_of_read quoteless ends read
  have without := read_uncommented (r := r) quoteless ends
  rw [read, uncommented_ended] at without
  refine ⟨_, _, errors, errors_of_read without, ?_, ?_, ?_, fun silent => ?_⟩
  · exact Failure.message_uncomment follows quoteless
  · exact congrArg (fun line : Nat => some (line : Int)) (Failure.line_recast (fun _ => rfl) _)
  · exact congrArg (fun column : Nat => some (column : Int)) (Failure.column_recast (fun _ => rfl) _)
  · have quiet := quiet_ended silent
    have reports (mark : Text) (member : mark ∈ Hint.marks) :=
      Failure.infix_report_uncomment member quoteless quiet follows outside
    have hint := Hint.detect_uncommented silent reports (some (stop.failure.line : Int))
    have line := Failure.line_recast (m := .uncomment (ended source)) (fun _ => rfl) stop.failure
    unfold Failure.toError
    dsimp only [Stop.recast]
    rw [line, ← uncommented_ended, hint]

end Reading

namespace Parser

/-- What is in comments does not matter for an error. If a source without quotes is rejected, then
so is the source without what is in its comments, with the same message, line and column. The
suggestion is the same, too, if the comments have no brackets in them and none of the marks by which
hints are found. -/
theorem parse_uncommented {c : Config} {source : Text} {p q : Parse} (plain : Quoteless source)
    (parsed : (Parser.empty.setLanguage (Artifact.language c)).parse (.text source) = .ok p)
    (also : (Parser.empty.setLanguage (Artifact.language c)).parse (.text (uncommented source)) =
      .ok q)
    (fails : p.errors ≠ []) :
    ∃ e f : SyntaxError, p.errors = [e] ∧ q.errors = [f] ∧ f.message = e.message ∧
      f.line = e.line ∧ f.column = e.column ∧
      (Hint.Silent source → f.suggestion = e.suggestion) := by
  obtain rfl := parsed_iff.mp parsed
  obtain rfl := parsed_iff.mp also
  exact Reading.parseText_uncommented rfl plain fails

private theorem nothing_of_dollar (rest : Text) :
    Lexer.piece .spelled ('$' :: '#' :: rest) = .none := by
  rw [Lexer.piece_eq]
  rfl

theorem parse_uncommented_silent : ∃ p q : Parse,
    Quoteless "$# no\n".toList ∧ Hint.Silent "$# no\n".toList ∧
      (Parser.empty.setLanguage (Artifact.language .default)).parse
          (.text "$# no\n".toList) = .ok p ∧
        p.errors ≠ [] ∧
        (Parser.empty.setLanguage (Artifact.language .default)).parse
            (.text (uncommented "$# no\n".toList)) = .ok q ∧
          ∃ e f : SyntaxError, p.errors = [e] ∧ q.errors = [f] ∧ f.message = e.message ∧
            f.line = e.line ∧ f.column = e.column ∧ f.suggestion = e.suggestion := by
  have plain : Quoteless "$# no\n".toList := by decide
  have silent : Hint.Silent "$# no\n".toList := by decide
  have errors := @Reading.errors_of_none
    ⟨automaton, Config.default.lexer, Config.default.tabWidth⟩ "$# no\n".toList rfl
    (nothing_of_dollar _)
  have fails := errors.trans_ne (List.cons_ne_nil _ _)
  obtain ⟨e, f, here, there, message, line, column, suggestion⟩ :=
    parse_uncommented plain (parsed_iff.mpr rfl) (parsed_iff.mpr rfl) fails
  exact ⟨_, _, plain, silent, parsed_iff.mpr rfl, fails, parsed_iff.mpr rfl, e, f, here, there,
    message, line, column, suggestion silent⟩

/-- A bracket in a comment counts, so that the suggestion is another one. -/
theorem parse_uncommented_bracket : ∃ (p q : Parse) (e f : SyntaxError),
    Quoteless "$#(\n".toList ∧ uncommented "$#(\n".toList = "$#\n".toList ∧
      (Parser.empty.setLanguage (Artifact.language .default)).parse
          (.text "$#(\n".toList) = .ok p ∧ p.errors = [e] ∧
        (Parser.empty.setLanguage (Artifact.language .default)).parse
            (.text "$#\n".toList) = .ok q ∧ q.errors = [f] ∧
          e.suggestion = some (Hint.unmatchedParentheses 1 0).suggestion ∧
          f.suggestion = some "Check syntax around this line" ∧ e.suggestion ≠ f.suggestion := by
  have errors := @Reading.errors_of_none
    ⟨automaton, Config.default.lexer, Config.default.tabWidth⟩ "$#(\n".toList rfl
    (nothing_of_dollar _)
  have without := @Reading.errors_of_none
    ⟨automaton, Config.default.lexer, Config.default.tabWidth⟩ "$#\n".toList rfl
    (nothing_of_dollar _)
  exact ⟨_, _, _, _, by decide, by decide, parsed_iff.mpr rfl, errors, parsed_iff.mpr rfl, without,
    by decide, by decide, by decide⟩

end Parser

end VyperFront
