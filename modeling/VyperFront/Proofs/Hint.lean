import VyperFront.Diagnostic.Failure
import VyperFront.Proofs.Text.Comment

/-! Hints are looked for in the report of a failure. Two of them are found by a mark, which is a
part of the report that stands for the failure; the others depend on the source only. Where the
source itself does not hold the marks, they are found exactly for what the report says of the
tokens. -/

namespace VyperFront

namespace Hint

/-- What the report of a bad dedent begins with. -/
def dedentMark : Text := "Unexpected dedent".toList

/-- What an indent is called in reports. -/
def indentMark : Text := "_INDENT".toList

/-- The parts of a report by which hints are found. -/
def marks : List Text := [dedentMark, indentMark]

/-- Whether hints can be found in the text that are not about a failure. -/
def Marked (t : Text) : Prop := ∃ mark ∈ marks, mark <:+: t

instance (t : Text) : Decidable (Marked t) :=
  inferInstanceAs (Decidable (∃ mark ∈ marks, mark <:+: t))

variable {source report line part t : Text} {number : Option Int} {h : Hint}

theorem forHeader_cases (found : forHeader line = some h) : h = bracesBlock ∨ h = missingColon := by
  rw [forHeader] at found
  split at found
  · dsimp only at found
    split at found
    · exact .inl (Option.some.inj found).symm
    · split at found
      · cases found
      · exact .inr (Option.some.inj found).symm
  · cases found

theorem forSource_cases (found : forSource source = some h) :
    (∃ opened closed, h = unmatchedParentheses opened closed) ∨
      (∃ opened closed, h = unmatchedBrackets opened closed) ∨ h = mixedIndentation := by
  rw [forSource] at found
  split at found
  · exact .inl ⟨_, _, (Option.some.inj found).symm⟩
  · split at found
    · exact .inr (.inl ⟨_, _, (Option.some.inj found).symm⟩)
    · split at found
      · exact .inr (.inr (Option.some.inj found).symm)
      · cases found

/-- What the source brings is no hint about indentation as such. -/
private theorem other_of_source
    (found : (match (number.bind source.lineAt?).bind forHeader with
      | some hint => some hint
      | none => forSource source) = some h) : h ≠ badDedent ∧ h ≠ unexpectedIndent := by
  split at found
  · next same =>
    cases found
    obtain ⟨_, _, header⟩ := Option.bind_eq_some_iff.mp same
    rcases forHeader_cases header with rfl | rfl <;> exact ⟨nofun, nofun⟩
  · rcases forSource_cases found with ⟨_, _, rfl⟩ | ⟨_, _, rfl⟩ | rfl <;> exact ⟨nofun, nofun⟩

theorem detect_eq_badDedent_iff :
    detect source report number = some badDedent ↔ dedentMark <:+: report := by
  rw [← Text.holds_iff]
  unfold detect
  split
  · next found => exact iff_of_true rfl found
  · next missing =>
    refine iff_of_false (fun found => ?_) missing
    split at found
    · cases found
    · exact (other_of_source found).1 rfl

theorem detect_eq_unexpectedIndent_iff :
    detect source report number = some unexpectedIndent ↔
      ¬ dedentMark <:+: report ∧ indentMark <:+: report := by
  rw [← Text.holds_iff, ← Text.holds_iff]
  unfold detect
  split
  · next found => exact iff_of_false nofun fun both => both.1 found
  · next missing =>
    split
    · next found => exact iff_of_true rfl ⟨missing, found⟩
    · next none =>
      exact iff_of_false (fun found => (other_of_source found).2 rfl) fun both => none both.2

/-- What is said about brackets begins in the same way, whatever their numbers. -/
private theorem exists_unmatched (opened closed : Nat) :
    (∃ rest, (unmatchedParentheses opened closed).suggestion.toList =
      "Unmatched parentheses: found ".toList ++ rest) ∧
    ∃ rest, (unmatchedBrackets opened closed).suggestion.toList =
      "Unmatched brackets: found ".toList ++ rest := by
  unfold suggestion
  dsimp only
  simp only [String.toList_append, List.append_assoc]
  exact ⟨⟨_, rfl⟩, _, rfl⟩

/-- The two hints about indentation say something else than the others, and than what is said
without a hint. -/
theorem suggestion_eq_iff {g : Hint} (about : g = badDedent ∨ g = unexpectedIndent)
    {hint : Option Hint} :
    (hint.map suggestion).getD "Check syntax around this line" = g.suggestion ↔ hint = some g := by
  refine ⟨fun same => ?_, fun same => by rw [same]; rfl⟩
  -- The first letters tell them apart.
  have same := congrArg (·.toList.take 3) same
  cases hint with
  | none => rcases about with rfl | rfl <;> revert same <;> decide
  | some h =>
    cases h with
    | unmatchedParentheses opened closed =>
      obtain ⟨⟨rest, text⟩, -⟩ := exists_unmatched opened closed
      rw [Option.map_some, Option.getD_some, text] at same
      rcases about with rfl | rfl <;> cases same
    | unmatchedBrackets opened closed =>
      obtain ⟨-, rest, text⟩ := exists_unmatched opened closed
      rw [Option.map_some, Option.getD_some, text] at same
      rcases about with rfl | rfl <;> cases same
    | _ => rcases about with rfl | rfl <;> revert same <;> decide

/-! Where the marks are found in a report: in what tokens are called, or in the text. -/

private theorem begins_of_mem (mark : part ∈ marks) :
    ∃ f g rest, part = f :: g :: rest ∧ Quoted.Begins f g := by
  simp only [marks, List.mem_cons, List.not_mem_nil, or_false] at mark
  rcases mark with rfl | rfl
  · exact ⟨_, _, _, rfl, by decide⟩
  · exact ⟨_, _, _, rfl, by decide⟩

theorem ne_nil_of_mem (mark : part ∈ marks) : part ≠ [] := by
  obtain ⟨f, g, rest, rfl, -⟩ := begins_of_mem mark
  exact List.cons_ne_nil _ _

theorem separators : ∀ part ∈ marks, ∀ c ∈ ['\'', '"', '\\', '.', ',', ':', '\n', '#'], c ∉ part := by
  have checked : marks.all fun part =>
      ['\'', '"', '\\', '.', ',', ':', '\n', '#'].all (!part.contains ·) := by decide
  simpa only [List.all_eq_true, Bool.not_eq_true', List.contains_eq_mem, decide_eq_false_iff_not]
    using checked

theorem exists_solid (mark : part ∈ marks) : ∃ c ∈ part, c ∉ ['\n', '\r', '#', ' ', '\t'] := by
  simp only [marks, List.mem_cons, List.not_mem_nil, or_false] at mark
  rcases mark with rfl | rfl
  · exact ⟨'U', by decide, by decide⟩
  · exact ⟨'_', by decide, by decide⟩

private theorem not_head_blank : ∀ part ∈ marks, part.head? ≠ some ' ' := by decide

private theorem label_checked : ∀ part ∈ marks, ∀ k ∈ Terminal.all,
    part <:+: k.label.toList ++ [' '] → k = .indent ∧ part = indentMark := by
  decide +kernel

end Hint

namespace Failure

open Hint

variable {part text before after : Text} {t token : SourceToken} {kinds : List Terminal}
  {history : Option (Option SourceToken)} {cursor : Lexer.Cursor} {previous : Option SourceToken}

theorem infix_of_label (mark : part ∈ marks) {k : Terminal}
    (found : part <:+: k.label.toList ++ [' ']) : k = .indent ∧ part = indentMark :=
  label_checked part mark k k.mem_all found

/-- A mark in what is said of a token is in its name or its text. -/
theorem infix_of_mention (mark : part ∈ marks) (found : part <:+: mention t ++ after) :
    (t.kind = .indent ∧ part = indentMark) ∨ part <:+: t.text ∨ part <:+: after := by
  obtain ⟨f, g, rest, rfl, begins⟩ := begins_of_mem mark
  have apart := separators _ mark
  refine (Text.infix_of_quoted begins (apart _ (by decide)) (fun c quote => apart c ?_)
    found).imp_left (infix_of_label mark)
  simp only [List.mem_cons, List.not_mem_nil, or_false] at quote ⊢
  tauto

theorem infix_of_mentionPrevious (mark : part ∈ marks) (found : part <:+: mentionPrevious previous) :
    ∃ t ∈ previous, (t.kind = .indent ∧ part = indentMark) ∨ part <:+: t.text := by
  cases previous with
  | none => exact absurd (List.infix_nil.mp found) (ne_nil_of_mem mark)
  | some t =>
    rw [mentionPrevious, ← List.append_nil (mention t)] at found
    refine ⟨t, rfl, (infix_of_mention mark found).imp_right fun later => ?_⟩
    exact later.resolve_right fun none => ne_nil_of_mem mark (List.infix_nil.mp none)

private theorem toList_expected (list : String) :
    s!". Expected one of: {list}.".toList = ". Expected one of: ".toList ++ list.toList ++ ['.'] := by
  simp only [String.toList_append]
  rfl

theorem infix_expected_iff (mark : part ∈ marks) :
    part <:+: ". Expected one of: ".toList ++
        List.intercalate [',', ' '] (kinds.map (·.label.toList)) ++ ['.'] ++ after ↔
      (part = indentMark ∧ .indent ∈ kinds) ∨ part <:+: after := by
  have some := ne_nil_of_mem mark
  have apart := separators _ mark
  have head := not_head_blank _ mark
  have begin : ". Expected one of: ".toList = '.' :: (" Expected one of".toList ++ [':', ' ']) := by
    decide
  have lead : ¬ part <:+: " Expected one of".toList := by
    have checked : ∀ part ∈ marks, ¬ part <:+: " Expected one of".toList := by decide
    exact checked part mark
  rw [begin, List.append_assoc, List.append_assoc, List.cons_append, ← List.nil_append ('.' :: _),
    Text.infix_append_cons_iff some (apart _ (by decide)), List.infix_nil, or_iff_right some,
    List.append_assoc, List.cons_append, Text.infix_append_cons_iff some (apart _ (by decide)),
    or_iff_right lead, List.singleton_append, Text.infix_cons_of_head_iff some head,
    List.singleton_append, Text.infix_append_cons_iff some (apart _ (by decide)),
    Text.infix_intercalate_iff some (apart _ (by decide)) head]
  refine or_congr_left ⟨?_, ?_⟩
  · rintro ⟨_, listed, found⟩
    obtain ⟨k, member, rfl⟩ := List.mem_map.mp listed
    obtain ⟨rfl, same⟩ := infix_of_label mark (found.trans (List.infix_append' [] _ _))
    exact ⟨same, member⟩
  · rintro ⟨rfl, member⟩
    exact ⟨_, List.mem_map_of_mem member, List.infix_rfl⟩

theorem report_unexpectedToken : report text (.unexpectedToken token kinds history) =
    mention token ++ (". Expected one of: ".toList ++
      List.intercalate [',', ' '] (kinds.map (·.label.toList)) ++ ['.'] ++
        mentionPrevious (history.bind id)) := by
  unfold report
  dsimp only
  rw [toList_expected, String.toList_intercalate, List.map_map, List.append_assoc]
  rfl

/-- A mark in the report of an unexpected token is in what is said of the token or of the one before
it, or it is the name of what was expected. -/
theorem infix_report_token_iff (mark : part ∈ marks) :
    part <:+: report text (.unexpectedToken token kinds history) ↔
      part <:+: mention token ∨ (part = indentMark ∧ .indent ∈ kinds) ∨
        part <:+: mentionPrevious (history.bind id) := by
  have some := ne_nil_of_mem mark
  have apart := separators _ mark '.' (by decide)
  obtain ⟨after, begins⟩ : ∃ after, ". Expected one of: ".toList ++
      List.intercalate [',', ' '] (kinds.map (·.label.toList)) ++ ['.'] ++
        mentionPrevious (history.bind id) = '.' :: after := ⟨_, rfl⟩
  rw [report_unexpectedToken, ← infix_expected_iff mark, begins,
    Text.infix_append_cons_iff some apart, ← List.nil_append ('.' :: after),
    Text.infix_append_cons_iff some apart, List.infix_nil, or_iff_right some]

/-- A mark in the report of an unexpected token is in a text, or it stands for an indent. -/
theorem infix_of_report_token (mark : part ∈ marks)
    (found : part <:+: report text (.unexpectedToken token kinds history)) :
    (part = indentMark ∧
        (token.kind = .indent ∨ .indent ∈ kinds ∨ ∃ t ∈ history.bind id, t.kind = .indent)) ∨
      part <:+: token.text ∨ ∃ t ∈ history.bind id, part <:+: t.text := by
  rcases (infix_report_token_iff mark).mp found with here | ⟨same, member⟩ | before
  · rw [← List.append_nil (mention token)] at here
    rcases infix_of_mention mark here with ⟨kind, same⟩ | inside | none
    · exact .inl ⟨same, .inl kind⟩
    · exact .inr (.inl inside)
    · exact absurd (List.infix_nil.mp none) (ne_nil_of_mem mark)
  · exact .inl ⟨same, .inr (.inl member)⟩
  · obtain ⟨t, last, ⟨kind, same⟩ | inside⟩ := infix_of_mentionPrevious mark before
    · exact .inl ⟨same, .inr (.inr ⟨t, last, kind⟩)⟩
    · exact .inr (.inr ⟨t, last, inside⟩)

/-- Where an indent is not expected or where nothing else is, the report has the mark. -/
theorem infix_report_of_indent (indent : token.kind = .indent ∨ .indent ∈ kinds) :
    indentMark <:+: report text (.unexpectedToken token kinds history) := by
  rw [report_unexpectedToken]
  rcases indent with kind | member
  · rw [mention, kind, List.append_assoc, List.append_assoc]
    exact (List.prefix_append ..).isInfix
  · exact ((infix_expected_iff (by decide)).mpr (.inl ⟨rfl, member⟩)).trans
      (List.suffix_append ..).isInfix

theorem infix_excerpt (text : Text) (offset : Nat) : excerpt text offset <:+: text := by
  have splits : text.take (offset - reach) ++ text.slice (offset - reach) offset ++
      text.drop offset = text := by
    have middle := List.take_append_drop (offset - (offset - reach)) (text.drop (offset - reach))
    rw [List.drop_drop, Nat.add_sub_cancel' (Nat.sub_le ..)] at middle
    rw [Text.slice, List.append_assoc, middle, List.take_append_drop]
  obtain ⟨front, ends⟩ := Text.lastLine_suffix (text.slice (offset - reach) offset)
  have before : (text.slice offset (offset + reach)).takeWhile (· ≠ '\n') <+: text.drop offset :=
    (List.takeWhile_prefix _).trans (List.take_prefix ..)
  obtain ⟨back, begins⟩ := before
  refine ⟨text.take (offset - reach) ++ front, back, ?_⟩
  rw [excerpt, List.append_assoc _ _ back, List.append_assoc _ _ back, begins, List.append_assoc,
    ← List.append_assoc front, ends, ← List.append_assoc, splits]

theorem infix_report_text_iff (mark : part ∈ marks) :
    part <:+: report text (.unexpectedText cursor previous) ↔
      part <:+: excerpt text cursor.place.offset ∨ part <:+: mentionPrevious previous := by
  have some := ne_nil_of_mem mark
  have split : report text (.unexpectedText cursor previous) =
      excerpt text cursor.place.offset ++ '.' :: ' ' :: mentionPrevious previous := by
    unfold report
    dsimp only
    rw [List.append_assoc]
    rfl
  rw [split, Text.infix_append_cons_iff some (separators _ mark _ (by decide)),
    Text.infix_cons_of_head_iff some (not_head_blank _ mark)]

/-- A mark in the report of an unexpected text is in the text, if it does not stand for an indent. -/
theorem infix_of_report_text (mark : part ∈ marks)
    (found : part <:+: report text (.unexpectedText cursor previous)) :
    part <:+: text ∨ ∃ t ∈ previous, (t.kind = .indent ∧ part = indentMark) ∨ part <:+: t.text :=
  ((infix_report_text_iff mark).mp found).imp (·.trans (infix_excerpt ..))
    (infix_of_mentionPrevious mark)

theorem infix_report_badDedent (e : Layout.BadDedent Extent) :
    dedentMark <:+: report text (.badDedent e) := by
  unfold report Layout.BadDedent.message
  dsimp only
  simp only [String.toList_append, List.append_assoc]
  have begins : dedentMark <+: (toString "Unexpected dedent to column ").toList := by decide
  exact (begins.trans (List.prefix_append ..)).isInfix

end Failure

/-! Hints in sources with comments. What a line is the header of, and how it is indented, is told
without its comment. But brackets and the marks of hints count in comments, too: a source is silent
if there are none of these in its comments. -/

namespace Hint

open Text

variable {source report other code line : Text}

/-- Whether hints do not depend on what is in the comments: no brackets, and no marks. -/
def Silent (source : Text) : Prop :=
  ∀ line ∈ source.lines, (∀ c ∈ ['(', ')', '[', ']'], c ∉ comment line) ∧ ¬ Marked (comment line)

instance (source : Text) : Decidable (Silent source) :=
  decidable_of_iff (source.lines.all fun line =>
    ['(', ')', '[', ']'].all (!(comment line).contains ·) && !decide (Marked (comment line)))
    (by simp [Silent])

theorem beginsWith_append_comment {word : Text} (plain : '#' ∉ word) (code rest more : Text) :
    beginsWith (code ++ '#' :: rest) word = beginsWith (code ++ '#' :: more) word := by
  have starts (rest : Text) : word.isPrefixOf (code ++ '#' :: rest) = word.isPrefixOf code := by
    rw [Bool.eq_iff_iff, List.isPrefixOf_iff_prefix, List.isPrefixOf_iff_prefix,
      prefix_append_cons_iff plain]
  rw [beginsWith, beginsWith, starts, starts]
  cases front : word.isPrefixOf code with
  | false => rfl
  | true =>
    obtain ⟨tail, rfl⟩ := List.isPrefixOf_iff_prefix.mp front
    rw [List.append_assoc, List.append_assoc, List.drop_left, List.drop_left]
    cases tail <;> rfl

theorem forHeader_append_comment (code rest more : Text) :
    forHeader (code ++ '#' :: rest) = forHeader (code ++ '#' :: more) := by
  have words : ∀ word ∈ blockWords, '#' ∉ word := by decide
  have header : isBlockHeader (code ++ '#' :: rest) = isBlockHeader (code ++ '#' :: more) := by
    rw [isBlockHeader, isBlockHeader, Bool.eq_iff_iff, List.any_eq_true, List.any_eq_true]
    exact exists_congr fun word => and_congr_right fun member => by
      rw [beginsWith_append_comment (words word member) code rest more]
  have stops : decide ('#' ≠ '#') = false := by decide
  rw [forHeader, forHeader, header, takeWhile_append_cons stops, takeWhile_append_cons stops]

theorem forHeader_cut (line : Text) : forHeader (trim (cut line)) = forHeader (trim line) := by
  rcases comment_cases line with none | ⟨code, rest, rfl, front⟩
  · rw [cut_of_not_mem none]
  · rw [cut_append front, trim_append_comment, trim_append_comment,
      forHeader_append_comment _ _ (trimRight rest)]

/-- What a line is the header of is told without the comments. -/
theorem header_uncommented (source : Text) (number : Option Int) :
    (number.bind (uncommented source).lineAt?).bind forHeader =
      (number.bind source.lineAt?).bind forHeader := by
  have empty : (uncommented source).isEmpty = source.isEmpty := by
    rw [Bool.eq_iff_iff, List.isEmpty_iff, List.isEmpty_iff, uncommented_eq_nil_iff]
  cases number with
  | none => rfl
  | some number =>
    rw [Option.bind_some, Option.bind_some, lineAt?, lineAt?, empty, lines_uncommented,
      List.getElem?_map]
    split
    · rfl
    · cases source.lines[number.toNat - 1]? with
      | none => rfl
      | some line => exact forHeader_cut line

theorem indentations_uncommented (source : Text) :
    indentations (uncommented source) = indentations source := by
  rw [indentations, indentations, lines_uncommented, List.filter_map, List.map_map]
  have solid (line : Text) : (cut line).trim.isEmpty = line.trim.isEmpty := by
    rcases comment_cases line with none | ⟨code, rest, rfl, front⟩
    · rw [cut_of_not_mem none]
    · rw [cut_append front, trim_append_comment, trim_append_comment]
      cases trimLeft code <;> rfl
  have blanks (line : Text) : (cut line).takeWhile (fun c => c = ' ' ∨ c = '\t') =
      line.takeWhile fun c => c = ' ' ∨ c = '\t' := by
    rcases comment_cases line with none | ⟨code, rest, rfl, front⟩
    · rw [cut_of_not_mem none]
    · have stops : decide ('#' = ' ' ∨ '#' = '\t') = false := by decide
      rw [cut_append front, takeWhile_append_cons stops, takeWhile_append_cons stops]
  simp only [Function.comp_def, solid, blanks]

theorem forSource_uncommented (silent : Silent source) :
    forSource (uncommented source) = forSource source := by
  have count {c : Char} (bracket : c ∈ ['(', ')', '[', ']']) :
      (uncommented source).count c = source.count c := by
    refine count_uncommented ?_ fun line member => (silent line member).1 c bracket
    rintro rfl
    exact absurd bracket (by decide)
  rw [forSource, forSource, mixesTabsAndSpaces, indentations_uncommented, count (by decide),
    count (by decide), count (by decide), count (by decide)]
  rfl

/-- In a silent source hints do not depend on the comments, if the marks in the report do not. -/
theorem detect_uncommented (silent : Silent source)
    (same : ∀ mark ∈ marks, mark <:+: other ↔ mark <:+: report) (number : Option Int) :
    detect (uncommented source) other number = detect source report number := by
  have holds (mark : Text) (member : mark ∈ marks) : holds mark other = holds mark report := by
    rw [Bool.eq_iff_iff, holds_iff, holds_iff, same mark member]
  have dedent := holds dedentMark (by decide)
  have indent := holds indentMark (by decide)
  unfold dedentMark at dedent
  unfold indentMark at indent
  rw [detect, detect, dedent, indent, header_uncommented, forSource_uncommented silent]

end Hint

end VyperFront
