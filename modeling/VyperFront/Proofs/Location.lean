import VyperFront.Proofs.Rejection

/-! Where errors are. A failure is at a character of the text, or at the end of the indentation of
a line. So its line is one of the source, and its column is in that line. -/

namespace VyperFront

open Layout

/-- Whether the failure is at a character of the text. A bad dedent is where the indentation of a
line ends, and as wide as that. -/
def Failure.Located (w : TabWidth) (text : Text) : Failure → Prop
  | unexpectedToken t _ _ => t.place.start.Inside text
  | unexpectedText c _ => c.place.Inside text
  | badDedent e => ∃ before after, text = before ++ after ∧ after ≠ [] ∧
      e.place.stop = Place.start.advance before ∧ e.column = w.measure (Text.lastLine before) ∧
      (∀ c ∈ Text.lastLine before, Text.isIndentation c = true) ∧
      ∀ c ∈ after.head?, Text.isIndentation c = false

variable {text : Text} {w : TabWidth} {t : SourceToken} {c after : Lexer.Cursor}
  {wanted : TerminalSet}

theorem Token.FoundIn.start_inside (found : t.FoundIn text) : t.place.start.Inside text := by
  obtain ⟨some, before, after, whole, place⟩ := found
  exact ⟨before, t.text ++ after, by rw [whole, List.append_assoc], by simp [some], by rw [place]⟩

namespace Lexer

theorem stuck_in (here : c.In text) (stuck : next wanted c = .stuck after) :
    after.In text ∧ after.rest ≠ [] := by
  obtain ⟨skipped, skips, some, _, place⟩ := exists_skips_of_stuck stuck
  have passed := here.pass skips.splits
  rw [← place] at passed
  exact ⟨passed, some⟩

theorem exists_newline_of_next (here : c.In text) (read : next wanted c = .token t after)
    (newline : t.kind = .newline) :
    ∃ before, text = before ++ (t.text ++ after.rest) ∧
      t.place = ⟨Place.start.advance before, Place.start.advance (before ++ t.text)⟩ ∧
      Lexeme.newline (t.text ++ after.rest) = some (t.text, after.rest) := by
  obtain ⟨skipped, rest, skips, first, place, _⟩ := next_eq_token_iff.mp read
  obtain ⟨front, whole, start⟩ := here
  have isWanted := (next_eq_token read).1
  rw [newline] at first isWanted
  have found := (piece_eq_newline_iff isWanted).mp first
  have splits := (Lexeme.proper_newline found).2
  refine ⟨front ++ skipped, ?_, ?_, by rw [splits, found]⟩
  · rw [whole, ← skips.splits, splits, List.append_assoc]
  · rw [place, start, ← Place.advance_append, ← Place.advance_append, List.append_assoc]

/-- A line break ends with the indentation of the next line. -/
theorem indentation_of_next (here : c.In text) (ends : text.endsLine = true)
    (read : next wanted c = .token t after) (newline : t.kind = .newline) :
    ∃ before, text = before ++ after.rest ∧ t.place.stop = Place.start.advance before ∧
      Text.lastLine before = Text.lastLine t.text ∧
      (∀ c ∈ Text.lastLine before, Text.isIndentation c = true) ∧
      ∀ c ∈ after.rest.head?, Text.isIndentation c = false := by
  obtain ⟨before, whole, place, found⟩ := exists_newline_of_next here read newline
  have some : t.text ++ after.rest ≠ [] :=
    List.append_ne_nil_of_left_ne_nil (Lexeme.proper_newline found).1 _
  rw [whole, Text.endsLine, List.getLast?_append_of_ne_nil _ some] at ends
  obtain ⟨feed, blank, stops⟩ := Lexeme.indentation_of_newline found ends
  have last : Text.lastLine (before ++ t.text) = Text.lastLine t.text := by
    obtain ⟨a, b, split⟩ := List.append_of_mem feed
    rw [split, ← List.append_assoc, Text.lastLine_append_feed, Text.lastLine_append_feed]
  refine ⟨before ++ t.text, ?_, ?_, last, ?_, fun d head => ?_⟩
  · rw [whole, List.append_assoc]
  · rw [place]
  · rw [last]
    simpa [Text.isIndentation] using blank
  · simpa [Text.isIndentation] using stops d head

end Lexer

namespace Reading

variable {r : Reading} {p : Progress} {stop : Stop} {s : Layout.State}
  {events : List (Event Terminal Extent)} {lastRead : Option SourceToken}

/-- What comes out of the layout is at characters of the text, and so is its failure. -/
structure Sited (w : TabWidth) (text : Text) (events : List (Event Terminal Extent)) : Prop where
  tokens : ∀ t ∈ tokensOf events, t.place.start.Inside text
  failure : ∀ e ∈ failureOf? events, (Failure.badDedent e).Located w text

theorem sited_step (here : c.In text) (ends : text.endsLine = true)
    (read : Lexer.next wanted c = .token t after) : Sited w text (step w s t).1 where
  tokens u member := by
    rw [(mem_step member).1]
    exact (Lexer.next_found here read).1.start_inside
  failure e fails := by
    obtain ⟨⟨role, _⟩, place, column, _, some⟩ := fails_of_step fails
    obtain ⟨before, whole, stop, last, blank, stops⟩ :=
      Lexer.indentation_of_next here ends read (kind_of_role role)
    refine ⟨before, after.rest, whole, fun empty => some ?_, place ▸ stop, last ▸ column, blank,
      stops⟩
    obtain rfl : text = before := by rw [whole, empty, List.append_nil]
    simp [widthAfter, ← last, Text.lastLine_of_endsLine ends, TabWidth.measure]

theorem sited_remaining (last : ∀ t ∈ lastRead, t.place.start.Inside text) :
    Sited r.tabWidth text (r.remaining s lastRead []) where
  tokens u member := by
    cases lastRead with
    | none => cases member
    | some t =>
      rw [(mem_finish member).2]
      exact last t rfl
  failure e fails := by
    rw [remaining, failureOf?_scanFrom_nil] at fails
    cases fails

/-- Reading has come to a character of the text, or has failed at one. -/
def Fares (w : TabWidth) (text : Text) : Except Stop Progress → Prop
  | .ok p => ∀ t ∈ p.lastFed, t.place.start.Inside text
  | .error stop => stop.failure.Located w text

theorem fares_feed (inside : t.place.start.Inside text) : Fares w text (r.feed p t) := by
  rw [feed]
  split
  · rintro _ ⟨⟩
    exact inside
  · rintro _ ⟨⟩
    exact inside
  · exact inside

theorem fares_feedAll (sited : Sited w text events)
    (fed : ∀ t ∈ p.lastFed, t.place.start.Inside text) : Fares w text (r.feedAll p events) := by
  induction events generalizing p with
  | nil => exact fed
  | cons event rest ih =>
    cases event with
    | note n => exact ih ⟨sited.tokens, sited.failure⟩ fed
    | fail e => exact sited.failure e rfl
    | token t =>
      obtain ⟨inside, later⟩ := List.forall_mem_cons.mp sited.tokens
      have fares := @fares_feed _ w _ r p inside
      rw [feedAll]
      cases taken : r.feed p t with
      | error stop =>
        rw [taken] at fares
        exact fares
      | ok q =>
        rw [taken] at fares
        exact ih ⟨later, sited.failure⟩ fares

/-- The end of the input stands where the last token does, or at the start. -/
theorem located_of_conclude (some : text ≠ []) (fed : ∀ t ∈ p.lastFed, t.place.start.Inside text)
    (fails : r.conclude p = .error stop) : stop.failure.Located w text := by
  obtain ⟨_, same⟩ := conclude_eq_error fails
  rw [same]
  cases last : p.lastFed with
  | none => exact Place.inside_start some
  | some t => exact fed t last

theorem located_of_stuck (here : c.In text) (rest : c.rest ≠ []) :
    (r.stuck p c lastRead).Located w text := by
  have inside : c.place.Inside text := by
    obtain ⟨before, whole, place⟩ := here
    exact ⟨before, c.rest, whole, rest, place⟩
  rw [stuck]
  split
  · exact inside
  · split
    · next found => exact (Lexer.next_found here found).1.start_inside
    · exact inside
    · exact inside

/-- Reading that fails does so at a character of the text. -/
theorem FailsAfter.located {given : List SourceToken} (fails : r.FailsAfter c s lastRead p given stop)
    (ends : text.endsLine = true) (here : c.In text)
    (last : ∀ t ∈ lastRead, t.place.start.Inside text)
    (fed : ∀ t ∈ p.lastFed, t.place.start.Inside text) : stop.failure.Located r.tabWidth text := by
  induction fails with
  | stuck stuck =>
    obtain ⟨there, rest⟩ := Lexer.stuck_in here stuck
    exact located_of_stuck there rest
  | token read fails =>
    change Fares r.tabWidth text (.error _)
    rw [← fails]
    exact fares_feedAll (sited_step here ends read) fed
  | closing _ fails =>
    change Fares r.tabWidth text (.error _)
    rw [← fails]
    exact fares_feedAll (sited_remaining last) fed
  | @ending p _ _ _ q _ _ closed fails =>
    have some : text ≠ [] := by
      rintro rfl
      cases ends
    have fares : Fares r.tabWidth text (.ok q) := by
      rw [← closed]
      exact fares_feedAll (sited_remaining last) fed
    exact located_of_conclude some fares fails
  | @later p _ _ _ _ q _ _ _ read taken _ ih =>
    obtain ⟨found, _, _, there⟩ := Lexer.next_found here read
    have fares : Fares r.tabWidth text (.ok q) := by
      rw [← taken]
      exact fares_feedAll (sited_step here ends read) fed
    exact ih there (by rintro _ ⟨⟩; exact found.start_inside) fares

theorem located_of_read (ends : text.endsLine = true) (fails : r.read text = .error stop) :
    stop.failure.Located r.tabWidth text :=
  (failsAfter_of_read fails).located ends (Lexer.Cursor.in_start text)
    (fun _ none => absurd none (Option.not_mem_none _))
    (fun _ none => absurd none (Option.not_mem_none _))

end Reading

theorem Layout.BadDedent.message_eq [HasEndLine π] (e : BadDedent π) {line : Nat}
    (pos : 1 ≤ line) (known : e.line = some (line : Int)) :
    e.message =
      s!"Unexpected dedent to column {e.column} at line {line}. Expected one of columns " ++
        ", ".intercalate (e.expected.map toString) := by
  have kept : e.line.filter (· ≠ 0) = some (line : Int) := by
    rw [known, Option.filter_some, if_pos (decide_eq_true (by omega))]
  have number : toString (toString " at line " ++ toString (line : Int)) =
      " at line " ++ toString line := rfl
  unfold message
  simp only [kept]
  rw [number, ← String.append_assoc]
  rfl

theorem Text.lineAt?_of_getElem? {source content : Text} {line : Nat} (some : source ≠ [])
    (pos : 1 ≤ line) (found : source.lines[line - 1]? = Option.some content) :
    source.lineAt? line = Option.some content.trim := by
  have number : ¬ ((line : Int) < 1) := by omega
  rw [lineAt?, List.isEmpty_eq_false_iff.mpr some, Bool.false_or, decide_eq_false number,
    if_neg Bool.false_ne_true, Int.toNat_natCast, found, Option.map_some]

/-- The line that is read where the text goes on after a front of it. -/
theorem Reading.getElem?_lines_ended {source before after : Text}
    (whole : ended source = before ++ after) (some : after ≠ []) :
    source.lines[before.count '\n']? =
      Option.some (Text.lastLine before ++ after.takeWhile (· ≠ '\n')) := by
  rw [ended] at whole
  split at whole
  · rw [whole, Text.getElem?_lines_append]
  · obtain ⟨front, last, rfl⟩ := List.eq_nil_or_concat after |>.resolve_left some
    rw [List.concat_eq_append, ← List.append_assoc] at whole
    obtain ⟨rfl, feed⟩ := List.append_inj' whole rfl
    obtain rfl := List.singleton_inj.mp feed
    rw [Text.getElem?_lines_append, List.concat_eq_append, Text.takeWhile_append_feed]

theorem Place.Inside.exists_line {source : Text} {p : Place}
    (inside : p.Inside (Reading.ended source)) :
    1 ≤ p.line ∧ ∃ content, source.lines[p.line - 1]? = some content ∧
      1 ≤ p.column ∧ p.column ≤ content.length + 1 := by
  obtain ⟨before, after, whole, some, rfl⟩ := inside
  have line : (start.advance before).line = before.count '\n' + 1 :=
    (line_advance ..).trans (Nat.add_comm ..)
  rw [line, column_advance_start]
  refine ⟨Nat.le_add_left .., _, Reading.getElem?_lines_ended whole some, Nat.le_add_left .., ?_⟩
  rw [List.length_append]
  omega

/-- A failure is in a line of the source, and so is its column. The indentation of the line of a
bad dedent is as wide as that. -/
theorem Failure.Located.exists_line {f : Failure} {source : Text}
    (located : f.Located w (Reading.ended source)) :
    1 ≤ f.line ∧ ∃ content, source.lines[f.line - 1]? = some content ∧
      ((∀ e, f ≠ .badDedent e) → 1 ≤ f.column ∧ f.column ≤ content.length + 1) ∧
      ∀ e, f = .badDedent e → e.column = w.measure (content.takeWhile Text.isIndentation) := by
  cases f with
  | unexpectedToken t expected history =>
    obtain ⟨pos, content, found, column⟩ := Place.Inside.exists_line located
    exact ⟨pos, content, found, fun _ => column, nofun⟩
  | unexpectedText cursor previous =>
    obtain ⟨pos, content, found, column⟩ := Place.Inside.exists_line located
    exact ⟨pos, content, found, fun _ => column, nofun⟩
  | badDedent e =>
    obtain ⟨before, after, whole, some, place, width, blank, stops⟩ := located
    have line : (badDedent e).line = before.count '\n' + 1 := by
      rw [Failure.line, place]
      exact (Place.line_advance ..).trans (Nat.add_comm ..)
    rw [line]
    refine ⟨Nat.le_add_left .., _, Reading.getElem?_lines_ended whole some,
      fun other => absurd rfl (other e), ?_⟩
    rintro _ ⟨⟩
    -- Nothing after the indentation belongs to it.
    have rest : (after.takeWhile (· ≠ '\n')).takeWhile Text.isIndentation = [] := by
      cases after with
      | nil => rfl
      | cons c more =>
        have other := stops c rfl
        by_cases feed : c = '\n'
        · simp [feed]
        · simp [feed, other]
    rw [List.takeWhile_append_of_pos blank, rest, List.append_nil, width]

/-- Every error points into the source. Its line is one of the lines of the source, and the context
is that line. The column is in the line or just after it, unless the failure is a bad dedent; then
the message gives the width of the indentation of the line, and the column is the one after it. -/
theorem Parser.parse_located {c : Config} {source : Text} {p : Parse}
    (parsed : (Parser.empty.setLanguage (Artifact.language c)).parse (.text source) = .ok p)
    (fails : p.errors ≠ []) :
    ∃ (stop : Reading.Stop) (e : SyntaxError) (line : Nat) (content : Text),
      (Artifact.language c).handle.reading.read (Reading.ended source) = .error stop ∧
      p.errors = [e] ∧
      e.line = some (line : Int) ∧ 1 ≤ line ∧ line ≤ source.lines.length ∧
      source.lines[line - 1]? = some content ∧
      e.context = some (String.ofList content.trim) ∧
      ((∀ d, stop.failure ≠ .badDedent d) → ∃ column : Nat,
        e.column = some (column : Int) ∧ 1 ≤ column ∧ column ≤ content.length + 1) ∧
      ∀ d, stop.failure = .badDedent d → ∃ width : Nat,
        e.message =
          s!"Unexpected dedent to column {width} at line {line}. Expected one of columns " ++
            ", ".intercalate (d.expected.map toString) ∧
        width = c.tabWidth.measure (content.takeWhile Text.isIndentation) ∧
        e.column = some ((width + 1 : Nat) : Int) := by
  obtain rfl := parsed_iff.mp parsed
  rcases @Reading.exists_stop _ (.text source) fails with ⟨_, _, none, _⟩ | ⟨stop, read, errors⟩
  · cases none
  rw [Reading.parse, Reading.text_parseText] at read errors
  have some : source ≠ [] := by
    rintro rfl
    exact fails (@Reading.parseText_nil ⟨automaton, c.lexer, c.tabWidth⟩ rfl).1
  have located := Reading.located_of_read (Reading.endsLine_ended source) read
  obtain ⟨pos, content, found, column, dedent⟩ := located.exists_line
  obtain ⟨inside, _⟩ := List.getElem?_eq_some_iff.mp found
  refine ⟨stop, _, stop.failure.line, content, read, errors, rfl, pos, by omega, found, ?_,
    fun other => ⟨_, rfl, column other⟩, ?_⟩
  · rw [Failure.toError, Option.bind_some, Text.lineAt?_of_getElem? some pos found]
    rfl
  · intro d same
    refine ⟨d.column, ?_, dedent d same, ?_⟩
    · rw [same] at pos ⊢
      exact d.message_eq pos rfl
    · rw [Failure.toError, same]
      rfl

theorem Parser.parse_located_indented : ∃ p : Parse,
    (Parser.empty.setLanguage (Artifact.language .default)).parse
        (.text ('\n' :: " pass\n".toList)) = .ok p ∧
      p.errors ≠ [] ∧ ∃ (e : SyntaxError) (line : Nat) (content : Text), p.errors = [e] ∧
        e.line = some (line : Int) ∧
        (Text.lines ('\n' :: " pass\n".toList))[line - 1]? = some content := by
  have fails := Sample.errors_indented
  obtain ⟨_, e, line, content, _, errors, number, _, _, found, _⟩ :=
    parse_located (parsed_iff.mpr rfl) fails
  exact ⟨_, parsed_iff.mpr rfl, fails, e, line, content, errors, number, found⟩

end VyperFront
