import VyperFront.Proofs.Lexeme.Beyond
import VyperFront.Proofs.Lexer.Piece
import VyperFront.Proofs.Text.Return

namespace VyperFront.Lexeme

open Text

/-- The reading of the text without the carriage returns. -/
def unreturned (reading : Text × Text) : Text × Text :=
  (withoutReturns reading.1, withoutReturns reading.2)

variable {t line after : Text} {reading : Text × Text} {c quote : Char} {r : Recognizer}

@[simp] theorem unreturned_cons (other : c ≠ '\r') (reading : Text × Text) :
    unreturned (cons c reading) = cons c (unreturned reading) :=
  Prod.ext (withoutReturns_cons other reading.1) rfl

@[simp] theorem unreturned_feed (reading : Text × Text) :
    unreturned (cons '\r' (cons '\n' reading)) = cons '\n' (unreturned reading) := rfl

theorem unreturned_append (plain : '\r' ∉ line) (reading : Text × Text) :
    unreturned (append line reading) = append line (unreturned reading) :=
  Prod.ext (withoutReturns_append plain reading.1) rfl

theorem unreturned_leave (plain : '\r' ∉ line) (splits : Splits reading line) :
    unreturned (leave after reading) = leave (withoutReturns after) reading := by
  rw [← splits, List.mem_append, not_or] at plain
  exact Prod.ext (withoutReturns_of_not_mem plain.1) (withoutReturns_append plain.2 after)

theorem exists_line (paired : Paired t) :
    ∃ line after, t = line ++ after ∧ '\r' ∉ line ∧ '\n' ∉ line ∧ Ends after ∧
      Ends (withoutReturns after) := by
  induction paired with
  | nil => exact ⟨[], [], rfl, by simp, by simp, .nil, .nil⟩
  | @feedAfterReturn rest _ _ =>
    exact ⟨[], '\r' :: '\n' :: rest, rfl, by simp, by simp, .feedAfterReturn rest, .feed _⟩
  | @cons c rest other _ ih =>
    by_cases feed : c = '\n'
    · subst feed
      exact ⟨[], '\n' :: rest, rfl, by simp, by simp, .feed rest, .feed _⟩
    · obtain ⟨line, after, rfl, plain, one, ends, also⟩ := ih
      refine ⟨c :: line, after, rfl, ?_, ?_, ends, also⟩
      · simp [Ne.symm other, plain]
      · simp [Ne.symm feed, one]

/-- What reads within a line reads the same. -/
theorem Within.withoutReturns (within : Within r) (proper : Proper r) (paired : Paired t) :
    r (withoutReturns t) = (r t).map unreturned := by
  obtain ⟨line, after, rfl, plain, one, ends, also⟩ := exists_line paired
  rw [withoutReturns_append plain, within one also, within one ends]
  cases read : r line with
  | none => rfl
  | some reading => exact congrArg some (unreturned_leave plain (proper read).2).symm

theorem moreLines_withoutReturns (mode : LineMode) (paired : Paired t) :
    moreLines mode (withoutReturns t) = unreturned (moreLines mode t) := by
  induction paired generalizing mode with
  | nil => cases mode <;> rfl
  | feedAfterReturn _ ih =>
    cases mode with
    | comment => simp [withoutReturns, moreLines, ih]
    | indentation => simp [withoutReturns, moreLines, ih]
  | @cons c rest other _ ih =>
    rw [withoutReturns_cons other]
    cases mode with
    | comment => simp [moreLines, ih, other]
    | indentation =>
      have steps (t : Text) : moreLines .indentation (c :: t) =
          if c = '\n' ∨ c = ' ' ∨ c = '\t' then cons c (moreLines .indentation t)
          else if c = '#' then cons c (moreLines .comment t) else ([], c :: t) := by
        rw [moreLines]
        exact fun _ same => absurd same other
      rw [steps, steps, ih, ih]
      split
      · exact (unreturned_cons other _).symm
      · split
        · exact (unreturned_cons other _).symm
        · exact Prod.ext rfl (withoutReturns_cons other rest).symm

theorem newline_withoutReturns (paired : Paired t) :
    newline (withoutReturns t) = (newline t).map unreturned := by
  cases paired with
  | nil => rfl
  | feedAfterReturn rest => simp [withoutReturns, newline, moreLines_withoutReturns _ rest]
  | @cons c rest other paired =>
    rw [withoutReturns_cons other]
    by_cases feed : c = '\n'
    · simp [feed, newline, moreLines_withoutReturns _ paired]
    · by_cases comment : c = '#'
      · simp [comment, newline, moreLines_withoutReturns _ paired]
      · simp [newline, feed, comment, other]

theorem oneBreak_withoutReturns (paired : Paired t) :
    oneBreak (withoutReturns t) = (oneBreak t).map unreturned := by
  cases paired with
  | nil => rfl
  | feedAfterReturn => rfl
  | @cons c rest other =>
    rw [withoutReturns_cons other]
    by_cases feed : c = '\n'
    · simp [feed, oneBreak, unreturned, withoutReturns]
    · simp [feed, oneBreak, other]

theorem continuation_withoutReturns (paired : Paired t) :
    continuation (withoutReturns t) = (continuation t).map unreturned := by
  cases paired with
  | nil => rfl
  | feedAfterReturn => simp [withoutReturns, continuation]
  | @cons c rest other paired =>
    rw [withoutReturns_cons other]
    by_cases backslash : c = '\\'
    · subst backslash
      obtain ⟨blanks, tail, rfl, blank, stops, -⟩ := exists_of_run (p := isSpacing) rest
      have plain : '\r' ∉ blanks := fun inside => absurd (blank _ inside) (by decide)
      have left := (paired_of_not_mem plain).append_iff.mp paired
      have also : ∀ c ∈ (withoutReturns tail).head?, isSpacing c = false := by
        cases left with
        | nil => simp [withoutReturns]
        | feedAfterReturn => simp [withoutReturns, isSpacing]
        | cons other => simpa [withoutReturns_cons other] using stops
      rw [withoutReturns_append plain, continuation_of_run blank also,
        continuation_of_run blank stops, oneBreak_withoutReturns left]
      have whole : '\r' ∉ '\\' :: blanks := by simp [plain]
      simp [Function.comp_def, unreturned_append whole]
    · simp [continuation, backslash]

theorem isPrefixOf_quotes_withoutReturns (isQuote : isQuote quote = true) (paired : Paired t) :
    [quote, quote].isPrefixOf (withoutReturns t) = [quote, quote].isPrefixOf t := by
  obtain ⟨line, after, rfl, plain, _, ends, also⟩ := exists_line paired
  rw [withoutReturns_append plain, isPrefixOf_quotes also.parted isQuote,
    isPrefixOf_quotes ends.parted isQuote]

private theorem untilTripleQuote_cons (open_ : ¬ (c = quote && [quote, quote].isPrefixOf t) = true)
    (plain : c ≠ '\\') :
    untilTripleQuote quote (c :: t) = (untilTripleQuote quote t).map (cons c) := by
  rw [untilTripleQuote.eq_def]
  simp only [if_neg open_, if_neg plain]

private theorem untilTripleQuote_escape {d : Char}
    (open_ : ¬ ('\\' = quote && [quote, quote].isPrefixOf (d :: t)) = true) :
    untilTripleQuote quote ('\\' :: d :: t) =
      (untilTripleQuote quote t).map (cons '\\' ∘ cons d) := by
  rw [untilTripleQuote.eq_def]
  simp only [if_neg open_, if_true]

private theorem untilTripleQuote_quotes (quote : Char) (t : Text) :
    untilTripleQuote quote (quote :: [quote, quote] ++ t) = some ([quote, quote, quote], t) := by
  rw [List.cons_append, untilTripleQuote.eq_def]
  simp

theorem untilTripleQuote_withoutReturns (isQuote : isQuote quote = true) (paired : Paired t) :
    untilTripleQuote quote (withoutReturns t) = (untilTripleQuote quote t).map unreturned := by
  have other {c : Char} (unquoted : Lexeme.isQuote c = false) (t : Text) :
      ¬ (c = quote && [quote, quote].isPrefixOf t) = true := by
    simp [ne_of_isQuote isQuote unquoted]
  have feed (t : Text) : untilTripleQuote quote ('\n' :: t) =
      (untilTripleQuote quote t).map (cons '\n') :=
    untilTripleQuote_cons (other rfl t) (by decide)
  have return_ (t : Text) : untilTripleQuote quote ('\r' :: t) =
      (untilTripleQuote quote t).map (cons '\r') :=
    untilTripleQuote_cons (other rfl t) (by decide)
  have escape (d : Char) (t : Text) : untilTripleQuote quote ('\\' :: d :: t) =
      (untilTripleQuote quote t).map (cons '\\' ∘ cons d) :=
    untilTripleQuote_escape (other rfl (d :: t))
  -- A backslash takes the carriage return with it, and leaves the line feed. So the induction is
  -- on the length.
  induction length : t.length using Nat.strong_induction_on generalizing t with
  | _ n shorter =>
    have ih {rest : Text} (paired : Paired rest) (less : rest.length < t.length) :=
      shorter _ (length ▸ less) paired rfl
    cases paired with
    | nil => rfl
    | @feedAfterReturn rest paired =>
      rw [withoutReturns, feed, return_, feed, ih paired (by simp only [List.length_cons]; omega)]
      simp [Function.comp_def]
    | @cons c rest unreturns paired =>
      by_cases closes : (c = quote && [quote, quote].isPrefixOf rest) = true
      · obtain ⟨rfl, more, rfl⟩ : c = quote ∧ [quote, quote] <+: rest := by simpa using closes
        have quotes : '\r' ∉ c :: [c, c] := by simp [Ne.symm unreturns]
        rw [← List.cons_append, withoutReturns_append quotes, untilTripleQuote_quotes,
          untilTripleQuote_quotes]
        simp [unreturned, withoutReturns_of_not_mem quotes]
      · have open_ := closes
        rw [← isPrefixOf_quotes_withoutReturns isQuote paired] at open_
        rw [withoutReturns_cons unreturns]
        by_cases backslash : c = '\\'
        · subst backslash
          cases paired with
          | nil => simp [withoutReturns, untilTripleQuote]
          | @feedAfterReturn more paired =>
            rw [withoutReturns, escape, escape, feed, ih paired (by simp; omega)]
            simp [Function.comp_def]
          | @cons d more unreturns paired =>
            rw [withoutReturns_cons unreturns, escape, escape,
              ih paired (by simp only [List.length_cons]; omega)]
            simp [Function.comp_def, unreturns]
        · rw [untilTripleQuote_cons closes backslash, untilTripleQuote_cons open_ backslash,
            ih paired (by simp)]
          simp [Function.comp_def, unreturns]

theorem longString_withoutReturns (paired : Paired t) :
    longString (withoutReturns t) = (longString t).map unreturned := by
  have whole := paired
  obtain ⟨line, after, rfl, plain, _, ends, also⟩ := exists_line paired
  rw [withoutReturns_append plain, longString_append also.parted,
    longString_append ends.parted]
  rcases marked : mark longMarks line with _ | ⟨letters, _ | ⟨quote, body⟩⟩
  · rfl
  · rfl
  · dsimp only
    split
    · next opens =>
      obtain ⟨isQuote, more, rfl⟩ : isQuote quote = true ∧ [quote, quote] <+: body := by
        simpa using opens
      obtain rfl : letters ++ quote :: ([quote, quote] ++ more) = line := splits_mark marked
      have quotes : '\r' ∉ letters ++ [quote, quote, quote] := by
        simp at plain ⊢
        tauto
      have inside : '\r' ∉ more := by
        simp at plain
        tauto
      have split : letters ++ quote :: ([quote, quote] ++ more) ++ after =
          (letters ++ [quote, quote, quote]) ++ (more ++ after) := by simp
      rw [split, (paired_of_not_mem quotes).append_iff] at whole
      have body := untilTripleQuote_withoutReturns isQuote whole
      rw [withoutReturns_append inside] at body
      simp [body, Function.comp_def, unreturned_append quotes]
    · rfl

/-- All that a recognizer reads is read without the carriage returns. -/
theorem changes_unreturned (paired : Paired t) :
    Lexer.Changes t (withoutReturns t) unreturned where
  stopped stopped proper := stopped.within.withoutReturns proper paired
  spacing := within_spacing.withoutReturns proper_spacing paired
  string := within_string.withoutReturns proper_string paired
  newline := newline_withoutReturns paired
  continuation := continuation_withoutReturns paired
  name {reading} found := by
    obtain ⟨line, after, rfl, plain, one, ends, _⟩ := exists_line paired
    rw [stopped_name ends.parted] at found
    obtain ⟨⟨word, rest⟩, named, rfl⟩ := Option.map_eq_some_iff.mp found
    have splits : word ++ rest = line := (proper_name named).2
    exact withoutReturns_of_not_mem fun inside =>
      plain (splits ▸ List.mem_append_left rest inside)

end VyperFront.Lexeme
