import VyperFront.Proofs.Lexeme.Comment
import VyperFront.Proofs.Location
import VyperFront.Proofs.Machine.Block
import VyperFront.Proofs.Reader.Recast
import VyperFront.Proofs.Text.Part

/-! How a reading comes to its failure. The token that is unexpected was read from the text, or it
stands for the indentation of a line; what was expected there is what the machine can go on with
after the tokens that it has taken. -/

namespace VyperFront

open Stack Layout

namespace Token

/-- Whether the token is a part of the text that is no indent. It is a run of line breaks, or
without quotes it is in a line. -/
structure PartOf (text : Text) (t : SourceToken) : Prop where
  kind : t.kind ≠ .indent
  part : t.text <:+: text
  breaks : t.kind = .newline → ∃ after, Lexeme.newline (t.text ++ after) = some (t.text, after)
  line : Lexeme.Quoteless text → t.kind ≠ .newline → '\n' ∉ t.text

/-- A token that is no run of line breaks is a part of the text, if it is found in a line of it. -/
theorem PartOf.of_line {text : Text} {t : SourceToken} (kind : t.kind ≠ .indent)
    (other : t.kind ≠ .newline) (part : t.text <:+: text) (line : '\n' ∉ t.text) : t.PartOf text :=
  ⟨kind, part, fun newline => absurd newline other, fun _ _ => line⟩

/-- Whether the token is a run of line breaks in the text, at its place. -/
def Breaks (text : Text) (t : SourceToken) : Prop :=
  ∃ before after, text = before ++ (t.text ++ after) ∧
    t.place = ⟨Place.start.advance before, Place.start.advance (before ++ t.text)⟩ ∧
    Lexeme.newline (t.text ++ after) = some (t.text, after)

/-- Where a token that the machine is given comes from. -/
inductive Origin (text : Text) : SourceToken → Prop
  | part {t : SourceToken} (part : t.PartOf text) : Origin text t
  /-- The line after a run of line breaks is indented. -/
  | indent {t : SourceToken} (breaks : t.Breaks text) (some : Text.lastLine t.text ≠ []) :
    Origin text ⟨.indent, Text.lastLine t.text, t.place⟩

end Token

/-- How a failure has come about after the machine has taken some tokens of a text. -/
inductive Failure.Follows (text : Text) (taken : List SourceToken) : Failure → Prop
  /-- The machine has rejected a token. -/
  | rejected {t : SourceToken} (origin : t.Origin text) (shifts : Shifts [] taken moved)
      (settles : Settles t.kind moved rest) :
    Follows text taken (.unexpectedToken t (rest.machine.expected automaton) none)
  /-- A token that is not wanted is there. -/
  | unwanted {t : SourceToken} {previous : Option SourceToken} (part : t.PartOf text)
      (last : ∀ u ∈ previous, u.PartOf text) (shifts : Shifts [] taken moved) :
    Follows text taken (.unexpectedToken t (moved.machine.expected automaton) (some previous))
  | unexpectedText {previous : Option SourceToken} (last : ∀ u ∈ previous, u.PartOf text) :
    Follows text taken (.unexpectedText c previous)
  | badDedent : Follows text taken (.badDedent e)

/-- If the text begins no token where it fails, the condition holds there. -/
def Failure.Keeps (here : Lexer.Cursor → Prop) : Failure → Prop
  | .unexpectedText c _ => here c
  | .unexpectedToken .. => True
  | .badDedent _ => True

variable {text : Text} {w : TabWidth} {s : Layout.State} {t u : SourceToken} {c after : Lexer.Cursor}
  {wanted : TerminalSet} {previous : Option SourceToken}

theorem Token.FoundIn.part (found : t.FoundIn text) : t.text <:+: text := by
  obtain ⟨_, before, after, whole, _⟩ := found
  exact ⟨before, after, whole.symm⟩

/-- A run of line breaks in a text that ends its last line comes to the indentation of a line,
and takes in all of it. -/
theorem Token.Breaks.exists_gap (breaks : t.Breaks text) (ends : text.endsLine = true) :
    ∃ before gap blank after, text = before ++ (gap ++ '\n' :: (blank ++ after)) ∧
      t.text = gap ++ '\n' :: blank ∧ Text.lastLine t.text = blank ∧
      t.place = ⟨Place.start.advance before, Place.start.advance (before ++ (gap ++ '\n' :: blank))⟩ ∧
      Lexeme.newline (gap ++ '\n' :: (blank ++ after)) = some (gap ++ '\n' :: blank, after) ∧
      (∀ c ∈ blank, c = ' ' ∨ c = '\t') ∧ ∀ c ∈ after.head?, c ≠ ' ' ∧ c ≠ '\t' := by
  obtain ⟨before, after, rfl, place, found⟩ := breaks
  have some : t.text ++ after ≠ [] :=
    List.append_ne_nil_of_left_ne_nil (Lexeme.proper_newline found).1 _
  rw [Text.endsLine, List.getLast?_append_of_ne_nil _ some] at ends
  obtain ⟨feed, blank, stops⟩ := Lexeme.indentation_of_newline found ends
  obtain ⟨gap, same⟩ := Text.exists_lastLine feed
  have whole : t.text ++ after = gap ++ '\n' :: (Text.lastLine t.text ++ after) := by
    rw [← List.cons_append, ← List.append_assoc, ← same]
  refine ⟨before, gap, Text.lastLine t.text, after, ?_, same, rfl, ?_, ?_, blank, stops⟩
  · rw [whole]
  · rw [place, ← same]
  · rw [← whole, ← same, found]

namespace Lexer

theorem breaks_of_next (here : c.In text) (read : next wanted c = .token t after)
    (newline : t.kind = .newline) : t.Breaks text := by
  obtain ⟨before, whole, place, found⟩ := exists_newline_of_next here read newline
  exact ⟨before, after.rest, whole, place, found⟩

theorem partOf_next (here : c.In text) (read : next wanted c = .token t after) : t.PartOf text where
  kind := (TerminalSet.contains_spelled.mp (spelled_of_next read)).1
  part := (next_found here read).1.part
  breaks newline := by
    obtain ⟨_, left, _, _, found⟩ := breaks_of_next here read newline
    exact ⟨left, found⟩
  line plain other := by
    obtain ⟨skipped, rest, skips, first, _⟩ := next_eq_token_iff.mp read
    obtain ⟨front, whole, _⟩ := here
    have inside : Lexeme.Quoteless rest := fun d member => plain d <| by
      rw [whole, ← skips.splits]
      exact List.mem_append_right _ (List.mem_append_right _ member)
    exact (plain_of_piece inside other first).1

end Lexer

namespace Failure.Follows

variable {taken : List SourceToken} {expected : List Terminal}
  {history : Option (Option SourceToken)}

theorem origin (follows : (unexpectedToken t expected history).Follows text taken) :
    t.Origin text := by
  cases follows with
  | rejected origin => exact origin
  | unwanted part => exact .part part

theorem before (follows : (unexpectedToken t expected history).Follows text taken) :
    ∀ u ∈ history.bind id, u.PartOf text := by
  cases follows with
  | rejected => exact fun u none => absurd none (Option.not_mem_none u)
  | unwanted _ last => exact last

/-- A block is expected exactly after the colon of a header and a line break. -/
theorem indent_mem_iff (follows : (unexpectedToken t expected history).Follows text taken) :
    .indent ∈ expected ↔ EndsHeader taken := by
  cases follows with
  | rejected _ shifts settles => exact shifts.indent_mem_expected_iff settles
  | unwanted _ _ shifts => exact shifts.indent_mem_expected_iff (@Settles.refl t.kind _)

end Failure.Follows

namespace Reading

variable {r : Reading} {p : Progress} {stop : Stop} {stack : Stack} {before : List SourceToken}
  {events : List (Event Terminal Extent)} {here : Lexer.Cursor → Prop}

theorem origin_of_mem_step (here : c.In text) (read : Lexer.next wanted c = .token t after)
    (member : u ∈ tokensOf (step w s t).1) : u.Origin text := by
  have part := Lexer.partOf_next here read
  rcases step_cases w s t with ⟨_, same⟩ | ⟨indents, same⟩ | ⟨_, _, same⟩
  · rw [same] at member
    cases member
  · rw [same, tokensOf_token, List.mem_cons] at member
    rcases member with rfl | member
    · exact .part part
    · by_cases deeper : s.current < widthAfter w t
      · rw [tokensOf_indentation_of_lt deeper, List.mem_singleton] at member
        rw [member]
        refine .indent (Lexer.breaks_of_next here read (kind_of_role indents.1)) fun empty => ?_
        rw [widthAfter, empty, TabWidth.measure] at deeper
        exact absurd deeper (by simp)
      · rw [tokensOf_indentation_of_le (Nat.le_of_not_lt deeper)] at member
        rw [List.eq_of_mem_replicate member]
        exact .part (.of_line Terminal.noConfusion Terminal.noConfusion
          ((Text.lastLine_suffix _).isInfix.trans part.part) (Text.feed_not_mem_lastLine _))
  · rw [same] at member
    rw [List.mem_singleton.mp member]
    exact .part part

/-- What is added at the end has no text. -/
theorem origin_of_mem_remaining (member : u ∈ tokensOf (r.remaining s previous [])) :
    u.Origin text := by
  have empty {place : Extent} {levels : List Nat}
      (member : u ∈ tokensOf (Layout.finish place levels)) : u.text = [] := by
    induction levels with
    | nil => cases member
    | cons level rest ih =>
      rcases List.mem_cons.mp member with rfl | later
      · rfl
      · exact ih later
  have kind := kind_of_mem_scanFrom_nil member
  cases previous with
  | none => cases member
  | some place =>
    have text := empty member
    refine .part (.of_line ?_ ?_ (text ▸ List.nil_infix) (text ▸ List.not_mem_nil))
    · rw [kind]
      exact Terminal.noConfusion
    · rw [kind]
      exact Terminal.noConfusion

theorem follows_of_feed (vyper : r.Vyper) (shifts : Shifts [] before stack)
    (machine : p.machine = stack.machine) (origin : t.Origin text)
    (fails : r.feed p t = .error stop) : stop.failure.Follows text before := by
  rw [feed, machine, vyper] at fails
  split at fails
  · cases fails
  · cases fails
  · next rejected =>
    cases fails
    obtain ⟨rest, settles, rfl⟩ := settles_of_rejected rejected
    exact .rejected origin shifts settles

theorem follows_of_feedAll (vyper : r.Vyper) (shifts : Shifts [] before stack)
    (machine : p.machine = stack.machine)
    (inside : ∀ t ∈ tokensOf events, t.kind ≠ .endOfInput)
    (origins : ∀ t ∈ tokensOf events, t.Origin text) (fails : r.feedAll p events = .error stop) :
    stop.failure.Follows text (before ++ r.takenAll p events) := by
  induction events generalizing p stack before with
  | nil => cases fails
  | cons event rest ih =>
    cases event with
    | note n => exact ih shifts machine inside origins fails
    | fail e =>
      cases fails
      exact .badDedent
    | token t =>
      rw [tokensOf_token, List.forall_mem_cons] at inside origins
      have sound := shifts.sound .nil
      rw [feedAll] at fails
      rw [takenAll]
      cases fed : r.feed p t with
      | error other =>
        rw [fed] at fails
        cases fails
        rw [List.append_nil]
        exact follows_of_feed vyper shifts machine origins.1 fed
      | ok next =>
        rw [fed] at fails
        obtain ⟨moved, feeds, rfl⟩ := (feed_eq_ok_iff vyper sound machine inside.1).mp fed
        have later : Shifts [] (before ++ [t]) moved :=
          shifts_append_iff.mpr ⟨stack, shifts, .cons feeds .nil⟩
        have follows := ih (p := ⟨moved.machine, some t, p.notes⟩) later rfl inside.2 origins.2 fails
        rwa [List.append_assoc] at follows

theorem follows_of_conclude (vyper : r.Vyper) (shifts : Shifts [] before stack)
    (machine : p.machine = stack.machine) (fails : r.conclude p = .error stop) :
    stop.failure.Follows text before := by
  have origin : (endToken p.lastFed).Origin text :=
    .part (.of_line Terminal.noConfusion Terminal.noConfusion List.nil_infix List.not_mem_nil)
  rw [conclude, machine, vyper] at fails
  split at fails
  · cases fails
  · next moved fed =>
    rcases rejected_or_feeds stack (endToken p.lastFed) with ⟨m, rejected⟩ | ⟨result, feeds, same⟩
    · cases fed.symm.trans rejected
    · cases result with
      | shifted moved => exact absurd rfl feeds.not_shifted
      | accepted d => cases fed.symm.trans same
  · next m fed =>
    cases fails
    obtain ⟨rest, settles, rfl⟩ := settles_of_rejected fed
    exact .rejected origin shifts settles

theorem follows_of_stuck (vyper : r.Vyper) (shifts : Shifts [] before stack)
    (machine : p.machine = stack.machine) (here : c.In text)
    (last : ∀ u ∈ previous, u.PartOf text) : (r.stuck p c previous).Follows text before := by
  rw [stuck]
  split
  · exact .unexpectedText last
  · split
    · next found =>
      rw [machine, vyper]
      exact .unwanted (Lexer.partOf_next here found) last shifts
    · exact .unexpectedText last
    · exact .unexpectedText last

/-- Reading that fails does so after what the machine has taken. -/
theorem FailsAfter.follows {given : List SourceToken} (vyper : r.Vyper)
    (fails : r.FailsAfter c s previous p given stop) (shifts : Shifts [] before stack)
    (machine : p.machine = stack.machine) (here : c.In text)
    (last : ∀ u ∈ previous, u.PartOf text) : stop.failure.Follows text (before ++ given) := by
  induction fails generalizing stack before with
  | stuck stuck =>
    rw [List.append_nil]
    exact follows_of_stuck vyper shifts machine (Lexer.stuck_in here stuck).1 last
  | token read fails =>
    exact follows_of_feedAll vyper shifts machine (inside_next read)
      (fun _ => origin_of_mem_step here read) fails
  | closing _ fails =>
    exact follows_of_feedAll vyper shifts machine (kind_of_mem_remaining_nil r _ _)
      (fun _ => origin_of_mem_remaining) fails
  | ending _ closed fails =>
    obtain ⟨_, moved, more, same⟩ := (feedAll_eq_ok_iff vyper (shifts.sound .nil) machine
      (kind_of_mem_remaining_nil r _ _)).mp ⟨_, closed, rfl⟩
    exact follows_of_conclude vyper (shifts_append_iff.mpr ⟨stack, shifts, more⟩) same fails
  | later read taken _ ih =>
    obtain ⟨_, moved, more, same⟩ :=
      (feedAll_eq_ok_iff vyper (shifts.sound .nil) machine (inside_next read)).mp ⟨_, taken, rfl⟩
    have part := Lexer.partOf_next here read
    rw [← List.append_assoc]
    exact ih (shifts_append_iff.mpr ⟨stack, shifts, more⟩) same (Lexer.next_found here read).2.2.2
      (by rintro _ ⟨⟩; exact part)

theorem follows_of_read (vyper : r.Vyper) (fails : r.read text = .error stop) :
    stop.failure.Follows text (r.taken text) :=
  (failsAfter_of_read fails).follows vyper .nil rfl (Lexer.Cursor.in_start text)
    (fun _ none => absurd none (Option.not_mem_none _))

/-- The machine does not fail at a cursor, and neither does the layout. -/
private theorem keeps_of_feed (fails : r.feed p t = .error stop) :
    stop.failure.Keeps here := by
  rw [feed] at fails
  split at fails
  · cases fails
  · cases fails
  · cases fails
    trivial

theorem keeps_of_feedAll (fails : r.feedAll p events = .error stop) : stop.failure.Keeps here := by
  induction events generalizing p with
  | nil => cases fails
  | cons event rest ih =>
    cases event with
    | note n => exact ih fails
    | fail e =>
      cases fails
      trivial
    | token t =>
      rw [feedAll] at fails
      cases fed : r.feed p t with
      | error other =>
        rw [fed] at fails
        cases fails
        exact keeps_of_feed fed
      | ok next =>
        rw [fed] at fails
        exact ih fails

theorem keeps_stuck (inside : here c) : (r.stuck p c previous).Keeps here := by
  rw [stuck]
  split
  · exact inside
  · split
    · trivial
    · exact inside
    · exact inside

/-- What holds of the cursor after each step of the lexer holds where the text begins no token. -/
theorem FailsAfter.keeps {given : List SourceToken}
    (fails : r.FailsAfter c s previous p given stop)
    (goes : ∀ {wanted c}, here c → (Lexer.next wanted c).Keeps here) (inside : here c) :
    stop.failure.Keeps here := by
  induction fails with
  | @stuck _ after _ _ _ stuck =>
    have later : (Lexer.Next.stuck after).Keeps here := by
      rw [← stuck]
      exact goes inside
    exact keeps_stuck later
  | token _ fails | closing _ fails => exact keeps_of_feedAll fails
  | ending _ _ fails =>
    obtain ⟨_, same⟩ := conclude_eq_error fails
    rw [same]
    trivial
  | @later _ t after _ _ _ _ _ _ read _ _ ih =>
    have later : (Lexer.Next.token t after).Keeps here := by
      rw [← read]
      exact goes inside
    exact ih later

theorem errors_of_read {source : Text} (fails : r.read (ended source) = .error stop) :
    (r.parseText source).errors = [stop.failure.toError source (ended source)] := by
  rw [parseText]
  dsimp only
  rw [fails]
  rfl

theorem read_of_none (some : text ≠ []) (nothing : Lexer.piece .spelled text = .none) :
    r.read text = .error ⟨.unexpectedText ⟨text, .start⟩ none, []⟩ := by
  have stops (wanted : TerminalSet) :
      Lexer.next wanted ⟨text, .start⟩ = .stuck ⟨text, .start⟩ :=
    Lexer.next_of_none some (Lexer.piece_none_narrow nothing)
  rw [read, run, stops]
  dsimp only
  rw [stuck]
  cases r.mode with
  | basic => rfl
  | contextual =>
    dsimp only
    rw [stops]

theorem errors_of_none {source : Text} (ends : source.endsLine = true)
    (nothing : Lexer.piece .spelled source = .none) :
    (r.parseText source).errors =
      [(Failure.unexpectedText ⟨source, .start⟩ none).toError source source] := by
  have whole : ended source = source := if_pos ends
  have some : source ≠ [] := by
    rintro rfl
    cases ends
  have read := read_of_none (r := r) some nothing
  rw [← whole] at read
  have errors := errors_of_read read
  rwa [whole] at errors

end Reading

end VyperFront
