import VyperFront.Proofs.Lexer.Piece
import VyperFront.Proofs.Lexer.Skip

/-! Tokens before a line feed do not depend on what comes after it. Only a long string that is
not closed could look further, and then the text before it is not read, either. A run of line
breaks that goes over the line feed goes on as after any other one. -/

namespace VyperFront.Lexer

open Lexeme

variable {wanted : TerminalSet} {t u v w skipped rest lexeme left : Text} {kind : Terminal}
  {c after : Cursor} {token : SourceToken}

theorem changes_leave (newline : Told newline u) (continuation : Told continuation u)
    (after : Text) : Changes u (u ++ '\n' :: after) (leave ('\n' :: after)) where
  stopped stopped _ := stopped.within.told u after
  spacing := within_spacing.told u after
  string := within_string.told u after
  newline := newline after
  continuation := continuation after
  name _ := rfl

/-- What comes of the classes before long strings is told by what comes before the line feed. -/
private theorem firstOf_shortClasses (wanted : TerminalSet) (u after : Text) :
    firstOf wanted (u ++ '\n' :: after) shortClasses =
      (firstOf wanted u shortClasses).map
        fun (kind, reading) => (kind, leave ('\n' :: after) reading) :=
  firstOf_map fun _ member _ => (within_of_mem_shortClasses member).told u after

/-- A token that ends before the line feed is read whatever comes after. -/
theorem piece_before (isWanted : wanted.contains .newline = true)
    (found : piece wanted (u ++ '\n' :: v) = .token kind lexeme (w ++ '\n' :: v))
    (goes : ∃ other, piece other (w ++ '\n' :: v) ≠ .none) (after : Text) :
    piece wanted (u ++ '\n' :: after) = .token kind lexeme (w ++ '\n' :: after) := by
  have split : lexeme ++ w = u := by
    have front := frontOf_piece wanted (u ++ '\n' :: v)
    rw [found, Piece.FrontOf, ← List.append_assoc] at front
    exact List.append_cancel_right front.2.2
  -- If all there is to read is told by what comes before the line feed, so is this piece.
  have told {p : Piece} (same : ∀ after, piece wanted (u ++ '\n' :: after) =
      p.map (leave ('\n' :: after))) :
      piece wanted (u ++ '\n' :: after) = .token kind lexeme (w ++ '\n' :: after) := by
    rw [same] at found ⊢
    cases p with
    | ignored => cases found
    | none => cases found
    | token k l r =>
      simp only [Piece.map, leave, Piece.token.injEq] at found ⊢
      obtain ⟨rfl, rfl, rest⟩ := found
      exact ⟨rfl, rfl, by rw [← List.append_cancel_right rest]⟩
  rcases newline_feed u with newline | goesOn
  · rcases continuation_feed u with continuation | continues
    · by_cases long : wanted.contains .longString = true
      · rcases longString_feed u with closed | ⟨letters, quote, body, unclosed⟩
        · exact told fun after => (changes_leave newline continuation after).piece
            fun _ => closed after
        · rcases unclosed.feed v with ⟨whole, rest, read, longer⟩ | unclosed
          · cases short : firstOf wanted u shortClasses with
            | some entry =>
              apply told (p := .token entry.1 entry.2.1 entry.2.2)
              intro after
              rw [piece, numbersAndStrings_eq, firstOf_append, firstOf_shortClasses, short]
              rfl
            | none =>
              rw [piece, numbersAndStrings_eq, firstOf_append, firstOf_shortClasses, short,
                Option.map_none, Option.none_or, firstOf, if_pos long, read] at found
              cases found
              have := congrArg List.length split
              rw [List.length_append] at this
              omega
          · exact absurd (opened_of_unclosed unclosed) (not_opened_of_piece found goes)
      · exact told fun after => (changes_leave newline continuation after).piece
          fun wanted => absurd wanted long
    · rw [(@piece_eq_ignored_iff wanted _ _ _).mpr (.inl (continues v))] at found
      cases found
  · rw [(piece_eq_newline_iff isWanted).mpr (goesOn v)] at found
    have longer := congrArg List.length (Piece.token.inj found).2.1
    have whole := congrArg List.length split
    simp at longer whole
    omega

/-- A run of line breaks over the line feed goes on as after any other one. -/
theorem piece_over (isWanted : wanted.contains .newline = true)
    (found : piece wanted (u ++ '\n' :: v) = .token .newline lexeme left)
    (past : u.length < lexeme.length) (after : Text) :
    piece wanted (u ++ '\n' :: after) =
      .token .newline (u ++ '\n' :: (moreLines .indentation after).1)
        (moreLines .indentation after).2 := by
  have read := (piece_eq_newline_iff isWanted).mp found
  rw [piece_eq_newline_iff isWanted]
  rcases newline_feed u with told | goes
  · rw [told v] at read
    obtain ⟨reading, here, same⟩ := Option.map_eq_some_iff.mp read
    cases same
    have splits := congrArg List.length (proper_newline here).2
    rw [List.length_append] at splits
    omega
  · rw [goes after]
    simp [append]

theorem Skips.before (skips : Skips t skipped rest) (same : rest = u ++ '\n' :: v)
    (after : Text) : Skips (skipped ++ (u ++ '\n' :: after)) skipped (u ++ '\n' :: after) := by
  cases u with
  | nil => exact skips.closed same after
  | cons c u => exact skips.closed same (u ++ '\n' :: after)

variable {p : Place}

theorem offset_stop (found : next wanted c = .token token after) :
    token.place.stop = after.place ∧
      token.place.stop.offset + after.rest.length = c.place.offset + c.rest.length := by
  obtain ⟨skipped, rest, skips, first, place, stop⟩ := next_eq_token_iff.mp found
  have front := frontOf_piece wanted rest
  rw [first] at front
  have whole := congrArg List.length skips.splits
  have part := congrArg List.length front.2.2
  rw [place, stop, Place.offset_advance]
  rw [List.length_append] at whole part ⊢
  exact ⟨rfl, by omega⟩

/-- A token that ends before the line feed is the next one whatever comes after, if the lexer
goes on from it. -/
theorem next_before (isWanted : wanted.contains .newline = true)
    (found : next wanted ⟨u ++ '\n' :: v, p⟩ = .token token after)
    (early : token.place.stop.offset ≤ p.offset + u.length)
    (goes : ∃ other, ∀ cursor, next other after ≠ .stuck cursor) :
    ∃ w, after.rest = w ++ '\n' :: v ∧
      after.place.offset + w.length = p.offset + u.length ∧
      ∀ more, next wanted ⟨u ++ '\n' :: more, p⟩ =
        .token token ⟨w ++ '\n' :: more, after.place⟩ := by
  obtain ⟨skipped, rest, skips, first, place, stop⟩ := next_eq_token_iff.mp found
  have front := frontOf_piece wanted rest
  rw [first] at front
  have whole : skipped ++ token.text ++ after.rest = u ++ '\n' :: v := by
    rw [List.append_assoc, front.2.2, skips.splits]
  have short : (skipped ++ token.text).length ≤ u.length := by
    rw [place, Place.offset_advance] at early
    dsimp only at early
    omega
  obtain ⟨w, rfl⟩ : skipped ++ token.text <+: u := by
    apply List.prefix_of_prefix_length_le _ (List.prefix_append u ('\n' :: v)) short
    rw [← whole]
    exact List.prefix_append ..
  have left : after.rest = w ++ '\n' :: v := by
    apply @List.append_cancel_left _ (skipped ++ token.text)
    rw [whole, List.append_assoc]
  have here : rest = token.text ++ w ++ '\n' :: v := by
    rw [← front.2.2, left, List.append_assoc]
  refine ⟨w, left, ?_, fun more => ?_⟩
  · rw [stop, Place.offset_advance]
    simp only [List.length_append]
    omega
  · have onward : ∃ other, piece other (w ++ '\n' :: v) ≠ .none := by
      rw [← left]
      exact exists_piece goes (by rw [left]; simp)
    rw [here, left] at first
    refine next_eq_token_iff.mpr ⟨skipped, token.text ++ w ++ '\n' :: more, ?_, ?_, place, stop⟩
    · have again := skips.before here more
      simp only [List.append_assoc] at again ⊢
      exact again
    · exact piece_before isWanted first onward more

/-- A run of line breaks, after what is skipped: some of it, a line feed, and more. -/
def breakToken (p : Place) (skipped front more : Text) : SourceToken :=
  ⟨.newline, front ++ '\n' :: more,
    ⟨p.advance skipped, p.advance (skipped ++ front ++ '\n' :: more)⟩⟩

/-- A run of line breaks over the line feed goes on over the blank lines after it. -/
theorem next_over (isWanted : wanted.contains .newline = true)
    (found : next wanted ⟨u ++ '\n' :: v, p⟩ = .token token after)
    (newline : token.kind = .newline) (start : token.place.start.offset ≤ p.offset + u.length)
    (past : p.offset + u.length < token.place.stop.offset) :
    ∃ skipped front, u = skipped ++ front ∧ ∀ more, next wanted ⟨u ++ '\n' :: more, p⟩ =
      .token (breakToken p skipped front (moreLines .indentation more).1)
        ⟨(moreLines .indentation more).2,
          (breakToken p skipped front (moreLines .indentation more).1).place.stop⟩ := by
  obtain ⟨skipped, rest, skips, first, place, stop⟩ := next_eq_token_iff.mp found
  rw [place, Place.offset_advance] at start past
  dsimp only at start past
  obtain ⟨front, rfl⟩ : skipped <+: u := by
    apply List.prefix_of_prefix_length_le _ (List.prefix_append u ('\n' :: v)) (by omega)
    exact ⟨rest, skips.splits⟩
  have here : rest = front ++ '\n' :: v := by
    apply @List.append_cancel_left _ skipped
    rw [skips.splits, List.append_assoc]
  rw [newline, here] at first
  refine ⟨skipped, front, rfl, fun more => ?_⟩
  simp only [List.length_append] at past
  have again := skips.before here more
  rw [next_eq_token_iff]
  refine ⟨skipped, front ++ '\n' :: more, ?_, piece_over isWanted first (by omega) more, ?_, ?_⟩
  · rwa [List.append_assoc]
  · simp [breakToken]
  · simp [breakToken]

end VyperFront.Lexer
