import VyperFront.Proofs.Grammar.Items
import VyperFront.Proofs.Layout.Recast
import VyperFront.Proofs.Lexeme.Break
import VyperFront.Proofs.Machine.Block
import VyperFront.Proofs.Reader.Lines

/-! Readings that go on where another source could end. A line break at the end takes in the
line breaks and comments that come next; what is read after them is read as it is alone. -/

namespace VyperFront

open Stack Layout Lexeme VyperFront.Graph

theorem Stack.exists_feeds_newline {t : SourceToken} (newline : t.kind = .newline) :
    ∃ stack, Feeds [] t (.shifted stack) ∧ Rests stack ∧ Awaits stack := by
  obtain ⟨target, leads⟩ := exists_leads_item (s := .terminal .newline) (.inl rfl) rfl
  rw [← newline] at leads
  have feeds : Feeds [] t (.shifted [⟨target, .token t⟩]) := .shift leads
  obtain ⟨d, _, derives, _⟩ := @Derivation.exists_derives [.token t]
    (List.forall_mem_singleton.mpr (Derivation.isItem_newline newline))
  have rests := rests_of_derives derives (.cons feeds .nil)
  exact ⟨_, feeds, rests, awaits_of_line rests.sound (by rw [← newline]; rfl)⟩

namespace Reading

variable {r : Reading} {text before more : Text} {tokens others firsts later : List SourceToken}
  {t u : SourceToken} {a b c : Stage} {d : Derivation}

theorem Goes.newline (goes : r.Goes a t b) (newline : t.kind = .newline) :
    ∃ skipped rest, Lexer.Skips a.cursor.rest skipped rest ∧
      Lexeme.newline rest = some (t.text, b.cursor.rest) := by
  obtain ⟨skipped, rest, skips, first, _⟩ := Lexer.next_eq_token_iff.mp goes.read
  rw [newline, Lexer.piece_eq_newline_iff (contains_wants_newline r a.stack)] at first
  exact ⟨skipped, rest, skips, first⟩

theorem Goes.not_continues (goes : r.Goes a t b) (newline : t.kind = .newline) : ¬ Continues t := by
  obtain ⟨skipped, rest, _, found⟩ := goes.newline newline
  obtain ⟨c, more, rfl, inert⟩ := Lexer.exists_of_newline found
  obtain ⟨some, splits⟩ := proper_newline found
  rintro (same | same)
  · rw [same] at splits
    obtain rfl := (List.cons.inj splits).1
    exact absurd inert (by decide)
  · rw [same] at splits
    obtain rfl := (List.cons.inj splits).1
    exact absurd inert (by decide)

/-- The first token goes on with no condition if the first word does not. -/
theorem Passes.not_continues (passes : r.Passes a tokens b)
    (apart : ∀ t ∈ (tokens.dropWhile (·.kind = .newline)).head?, ¬ Continues t) :
    ∀ t ∈ tokens.head?, ¬ Continues t := by
  rintro t first
  cases passes with
  | nil => cases first
  | @cons _ u _ _ _ goes _ =>
    cases first
    by_cases newline : t.kind = .newline
    · exact goes.not_continues newline
    · exact apart t (by simp [newline])

/-- A text that begins with a line break cannot be indented after it. From there it is read as
from the beginning. -/
theorem Goes.first_line (goes : r.Goes (.start text) t b) (newline : t.kind = .newline)
    (breaks : '\n' ∈ t.text) :
    widthAfter r.tabWidth t = 0 ∧ tokensOf (step r.tabWidth .start t).1 = [t] ∧
      b.layout = .start ∧ Rests b.stack ∧ Awaits b.stack := by
  have indents : Indents State.start t := ⟨by rw [newline]; rfl, rfl, breaks⟩
  have steps := step_of_indents (w := r.tabWidth) indents
  have shifts := goes.shifts
  have layout := goes.layout
  obtain ⟨stack, feeds, rests, awaits⟩ := exists_feeds_newline newline
  rw [Stage.start, steps] at shifts layout
  have later : Shifts stack (tokensOf (indentation r.tabWidth .start t).1) b.stack := by
    cases shifts with
    | cons first later =>
      cases first.unique feeds
      exact later
  by_cases deeper : State.start.current < widthAfter r.tabWidth t
  · rw [tokensOf_indentation_of_lt deeper] at later
    cases later with
    | cons indent _ =>
      have follows := awaits Terminal.noConfusion indent.expected
      have none := follows.followers.symm.trans (Grammar.not_followers_indent _)
      cases none
  · have flat : widthAfter r.tabWidth t = 0 := Nat.eq_zero_of_not_pos deeper
    have shallow := Nat.le_of_not_lt deeper
    rw [tokensOf_indentation_of_le shallow] at later
    rw [(indentation_of_le shallow).2] at layout
    cases later
    refine ⟨flat, ?_, layout, rests, awaits⟩
    rw [steps, tokensOf_token, tokensOf_indentation_of_le shallow]
    rfl

/-- A line break at the beginning is read, if the line after it is not indented. -/
theorem exists_goes_newline {cursor : Lexer.Cursor}
    (read : Lexer.next (r.wants []) ⟨text, .start⟩ = .token t cursor) (newline : t.kind = .newline)
    (breaks : '\n' ∈ t.text) (flat : widthAfter r.tabWidth t = 0) :
    ∃ b, r.Goes (.start text) t b ∧ b.cursor = cursor := by
  obtain ⟨stack, feeds, _⟩ := exists_feeds_newline newline
  have indents : Indents State.start t := ⟨by rw [newline]; rfl, rfl, breaks⟩
  have steps := step_of_indents (w := r.tabWidth) indents
  have shallow : widthAfter r.tabWidth t ≤ State.start.current := Nat.le_of_eq flat
  refine ⟨⟨cursor, _, stack⟩, ⟨read, ?_, rfl, ?_⟩, rfl⟩
  · rw [Stage.start, steps, failureOf?_token, ← failureOf?_outputsOf, (indentation_of_le shallow).1,
      flat]
    rfl
  · rw [Stage.start, steps, tokensOf_token, tokensOf_indentation_of_le shallow]
    exact .cons feeds .nil

/-- Where no level is open, the layout of later tokens is that of these alone. -/
theorem Passes.scan_append (passes : r.Passes (.start text) firsts b) (layout : b.layout = .start) :
    failureOf? (Layout.run r.tabWidth .start firsts).1 = none ∧
      scan r.tabWidth (firsts ++ later) =
        (Layout.run r.tabWidth .start firsts).1 ++ scan r.tabWidth later := by
  obtain ⟨silent, state, _⟩ := passes.shifts
  have whole := @scanFrom_append _ _ _ r.tabWidth _ none firsts later silent
  rw [← state, layout, scanFrom_start] at whole
  exact ⟨silent, whole⟩

theorem Passes.scan_move (passes : r.Passes (.start text) firsts b) (layout : b.layout = .start)
    (silent : failureOf? (scan r.tabWidth later) = none) (f : Place → Place) :
    failureOf? (scan r.tabWidth (firsts ++ later.map (Recast.move f).token)) = none ∧
      tokensOf (scan r.tabWidth (firsts ++ later.map (Recast.move f).token)) =
        tokensOf (Layout.run r.tabWidth .start firsts).1 ++
          (tokensOf (scan r.tabWidth later)).map (Recast.move f).token := by
  obtain ⟨quiet, laidOut⟩ :=
    @Passes.scan_append _ _ _ (later.map (Recast.move f).token) _ passes layout
  have moved : scan r.tabWidth (later.map (Recast.move f).token) =
      (scan r.tabWidth later).map (Event.recast (.move f)) :=
    @scanFrom_recast _ _ _ _ none (Recast.keeps_move f)
  rw [laidOut, moved, failureOf?_append, quiet, Option.none_or, failureOf?_recast, tokensOf_append,
    tokensOf_recast]
  exact ⟨silent, rfl⟩

/-- Another reading goes on as one that begins does, from a stage at which nothing is open. -/
theorem Passes.onward (vyper : r.Vyper) (passes : r.Passes (.start text) firsts b)
    (layout : b.layout = .start) (rests : Rests b.stack)
    (there : r.Passes a others c) (finished : c.Finished) (alsoLayout : a.layout = .start)
    (alsoRests : Rests a.stack) (awaits : Awaits a.stack) {f : Place → Place}
    (moves : a.cursor.place.Moves f) (cursor : b.cursor = a.cursor.move f)
    (admits : ∀ t ∈ others.head?, b.stack.Admits t) :
    r.Reads text (firsts ++ others.map (Recast.move f).token) := by
  obtain ⟨next, later⟩ := there.of_admits vyper (by rw [alsoLayout]; rfl) alsoRests awaits rests
    admits moves
  rw [← cursor, alsoLayout, ← layout] at later
  exact (reads_iff vyper).mpr ⟨_, passes_append_iff.mpr ⟨b, passes, later⟩, finished.move f _ _⟩

/-- How a text is read up to a line feed at its end that is read in a run of line breaks, also
if more comes after it. The run then takes in the blank lines that come next. -/
theorem Reads.exists_line (vyper : r.Vyper) (reads : r.Reads (before ++ ['\n']) tokens)
    (member : t ∈ tokens) (newline : t.kind = .newline)
    (start : t.place.start.offset ≤ before.length) (past : before.length < t.place.stop.offset) :
    ∃ front p skipped lead, tokens = front ++ [Lexer.breakToken p skipped lead []] ∧
      ∀ more, widthAfter r.tabWidth
          (Lexer.breakToken p skipped lead (moreLines .indentation more).1) = 0 →
        ∃ b, r.Passes (.start (before ++ '\n' :: more))
            (front ++ [Lexer.breakToken p skipped lead (moreLines .indentation more).1]) b ∧
          b.cursor = Lexer.Cursor.move (Place.shift (before.length + 1) (before.count '\n' + 1))
            ⟨(moreLines .indentation more).2,
              Place.start.advance (moreLines .indentation more).1⟩ := by
  obtain ⟨front, back, m, next, b, skipped, lead, rfl, goes, rest, _, token, cursor, crosses⟩ :=
    reads.exists_over vyper member newline start past
  obtain rfl : back = [] := by
    cases rest with
    | nil => rfl
    | cons more _ =>
      have stops := more.read
      rw [cursor, Lexer.next_of_nil rfl] at stops
      cases stops
  refine ⟨front, m.cursor.place, skipped, lead, by rw [token]; rfl, fun more flat => ?_⟩
  obtain ⟨first, goesOn⟩ := crosses more
  have alike : Alike r.tabWidth t
      (Lexer.breakToken m.cursor.place skipped lead (moreLines .indentation more).1) := by
    subst token
    refine ⟨rfl, ?_, by simp [Lexer.breakToken]⟩
    rw [flat, widthAfter, Lexer.breakToken, Text.lastLine_append_feed]
    simp [moreLines, Text.lastLine, TabWidth.measure]
  obtain ⟨also, moved, _⟩ := goes.follow (simulates_states r) rfl alike goesOn
  have whole := passes_append_iff.mpr ⟨_, first, .cons moved .nil⟩
  refine ⟨_, whole, ?_⟩
  obtain ⟨text, splits, place⟩ := whole.exists_text
  have taken := splits_moreLines .indentation more
  generalize moreLines .indentation more = reading at *
  obtain rfl : text = before ++ '\n' :: reading.1 := by
    apply @List.append_cancel_right _ _ reading.2
    rw [← splits, List.append_assoc, List.cons_append, taken]
    rfl
  have line : Place.start.advance (before ++ ['\n']) =
      Place.start.shift (before.length + 1) (before.count '\n' + 1) := by
    rw [Place.advance_feed]
    simp [Place.start, Place.shift, Nat.add_comm, Nat.add_left_comm]
  refine congrArg (Lexer.Cursor.mk reading.2) (place.trans ?_)
  rw [← Place.advance_shift, ← line, ← Place.advance_append, List.append_assoc]
  rfl

end Reading

end VyperFront
