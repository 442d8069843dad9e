import VyperFront.Lexeme.Basic
import VyperFront.Lexeme.Line
import VyperFront.Lexeme.Number
import VyperFront.Lexeme.Quote

namespace VyperFront.Lexeme

/-- The text is the lexeme and what is left. -/
def Splits (reading : Text × Text) (t : Text) : Prop := reading.1 ++ reading.2 = t

/-- The recognizer splits texts, and no lexeme is empty. -/
def Proper (r : Recognizer) : Prop :=
  ∀ {t reading}, r t = some reading → reading.1 ≠ [] ∧ Splits reading t

variable {reading more : Text × Text} {t : Text} {c quote : Char}

theorem Splits.cons (splits : Splits reading t) : Splits (cons c reading) (c :: t) :=
  congrArg (c :: ·) splits

theorem Splits.extend (splits : Splits reading t) (later : Splits more reading.2) :
    Splits (Lexeme.append reading.1 more) t := by
  rw [Splits, Lexeme.append, List.append_assoc, later, splits]

theorem splits_run (p : Char → Bool) (t : Text) : Splits (run p t) t :=
  List.takeWhile_append_dropWhile

theorem proper_literal {expected : Text} (spelled : expected ≠ []) : Proper (literal expected) := by
  rintro t ⟨lexeme, rest⟩ found
  obtain ⟨rfl, rfl⟩ := literal_eq_some found
  exact ⟨spelled, rfl⟩

theorem proper_name : Proper name := by
  intro t reading found
  unfold name at found
  split at found
  · cases found
  · split at found
    · cases found
      exact ⟨List.cons_ne_nil _ _, (splits_run isWordChar _).cons⟩
    · cases found

theorem splits_moreLines (mode : LineMode) (t : Text) : Splits (moreLines mode t) t := by
  fun_induction moreLines mode t with
  | case1 => rfl
  | case2 c rest ih => exact ih.cons
  | case3 rest ih => exact ih.cons.cons
  | case4 c rest _ _ ih => exact ih.cons
  | case5 rest _ _ ih => exact ih.cons
  | case6 c rest => rfl

theorem proper_newline : Proper newline := by
  intro t reading found
  unfold newline at found
  split at found
  · cases found
    exact ⟨List.cons_ne_nil _ _, (splits_moreLines ..).cons⟩
  · cases found
    exact ⟨List.cons_ne_nil _ _, (splits_moreLines ..).cons.cons⟩
  · cases found
    exact ⟨List.cons_ne_nil _ _, (splits_moreLines ..).cons⟩
  · cases found

theorem proper_spacing : Proper spacing := by
  intro t reading found
  have splits := splits_run isSpacing t
  unfold spacing at found
  split at found
  · cases found
  · next other =>
    cases found
    exact ⟨fun empty => other _ (Prod.ext empty rfl), splits⟩

theorem proper_continuation : Proper continuation := by
  intro t reading found
  unfold continuation at found
  split at found
  · next rest =>
    have splits := splits_run isSpacing rest
    split at found
    · next blanks after same =>
      cases found
      rw [same] at splits
      exact ⟨List.cons_ne_nil _ _, by simpa [Splits] using splits⟩
    · next blanks after same =>
      cases found
      rw [same] at splits
      exact ⟨List.cons_ne_nil _ _, by simpa [Splits] using splits⟩
    · cases found
  · cases found

theorem splits_moreDigits (isDigit : Char → Bool) (t : Text) :
    Splits (moreDigits isDigit t) t := by
  fun_induction moreDigits isDigit t with
  | case1 => rfl
  | case2 c rest _ ih => exact ih.cons
  | case3 => rfl
  | case4 _ d after _ ih => exact ih.cons.cons
  | case5 => rfl
  | case6 => rfl

theorem proper_digits (isDigit : Char → Bool) : Proper (digits isDigit) := by
  intro t reading found
  unfold digits at found
  split at found
  · cases found
  · split at found
    · cases found
      exact ⟨List.cons_ne_nil _ _, (splits_moreDigits ..).cons⟩
    · cases found

theorem proper_exponent : Proper exponent := by
  intro t reading found
  unfold exponent at found
  split at found
  · cases found
  · split at found
    · split at found
      · cases found
      · split at found
        · obtain ⟨power, read, rfl⟩ := Option.map_eq_some_iff.mp found
          exact ⟨List.cons_ne_nil _ _, (proper_digits _ read).2.cons.cons⟩
        · obtain ⟨power, read, rfl⟩ := Option.map_eq_some_iff.mp found
          exact ⟨List.cons_ne_nil _ _, (proper_digits _ read).2.cons⟩
    · cases found

theorem splits_withExponent (splits : Splits reading t) : Splits (withExponent reading) t := by
  unfold withExponent
  split
  · next more read => exact splits.extend (proper_exponent read).2
  · exact splits

private theorem ne_nil_withExponent (some : reading.1 ≠ []) : (withExponent reading).1 ≠ [] := by
  unfold withExponent
  split
  · exact List.append_ne_nil_of_left_ne_nil some _
  · exact some

theorem proper_floatNumber : Proper floatNumber := by
  intro t reading found
  unfold floatNumber at found
  split at found
  · next whole rest read =>
    obtain ⟨some, splits⟩ := proper_digits _ read
    split at found
    · next fraction more =>
      cases found
      refine ⟨ne_nil_withExponent (List.append_ne_nil_of_left_ne_nil some _), ?_⟩
      exact splits_withExponent (splits.extend (proper_digits _ more).2.cons)
    · cases found
      refine ⟨ne_nil_withExponent (List.append_ne_nil_of_left_ne_nil some _), ?_⟩
      exact splits_withExponent (by simpa [Splits] using splits)
  · next whole rest _ read =>
    obtain ⟨some, splits⟩ := proper_digits _ read
    obtain ⟨power, more, rfl⟩ := Option.map_eq_some_iff.mp found
    exact ⟨List.append_ne_nil_of_left_ne_nil some _, splits.extend (proper_exponent more).2⟩
  · split at found
    · obtain ⟨fraction, more, rfl⟩ := Option.map_eq_some_iff.mp found
      exact ⟨ne_nil_withExponent (List.cons_ne_nil _ _),
        splits_withExponent (proper_digits _ more).2.cons⟩
    · cases found

theorem proper_based (letters : List Char) (isDigit : Char → Bool) :
    Proper (based letters isDigit) := by
  intro t reading found
  unfold based at found
  split at found
  · split at found
    · split at found
      · cases found
      · cases found
        exact ⟨List.cons_ne_nil _ _, (splits_moreDigits ..).cons.cons⟩
    · cases found
  · cases found

theorem splits_moreZeros (found : moreZeros t = some reading) : Splits reading t := by
  fun_induction moreZeros t generalizing reading with
  | case1 =>
    cases found
    rfl
  | case2 rest more _ ih =>
    cases found
    exact (ih ‹_›).cons
  | case3 =>
    cases found
    rfl
  | case4 rest more _ ih =>
    cases found
    exact (ih ‹_›).cons.cons
  | case5 =>
    cases found
    rfl
  | case6 => cases found
  | case7 =>
    cases found
    rfl

theorem proper_decNumber : Proper decNumber := by
  intro t reading found
  unfold decNumber at found
  split at found
  · cases found
  · split at found
    · obtain ⟨zeros, read, rfl⟩ := Option.map_eq_some_iff.mp found
      exact ⟨List.cons_ne_nil _ _, (splits_moreZeros read).cons⟩
    · split at found
      · cases found
        exact ⟨List.cons_ne_nil _ _, (splits_moreDigits ..).cons⟩
      · cases found

theorem splits_mark {allowed : List Text} (found : mark allowed t = some reading) :
    Splits reading t := by
  unfold mark at found
  dsimp only at found
  split at found
  · cases found
    have front : (t.take 2).takeWhile (!isQuote ·) <+: t :=
      (List.takeWhile_prefix _).trans (List.take_prefix 2 t)
    exact List.prefix_iff_eq_append.mp front
  · cases found

theorem splits_untilQuote (found : untilQuote quote t = some reading) : Splits reading t := by
  fun_induction untilQuote quote t generalizing reading with
  | case1 => cases found
  | case2 =>
    cases found
    rfl
  | case3 => cases found
  | case4 => cases found
  | case5 => cases found
  | case6 rest _ _ _ _ ih =>
    obtain ⟨more, read, rfl⟩ := Option.map_eq_some_iff.mp found
    exact (ih read).cons.cons
  | case7 c rest _ _ _ ih =>
    obtain ⟨more, read, rfl⟩ := Option.map_eq_some_iff.mp found
    exact (ih read).cons

theorem splits_untilTripleQuote (found : untilTripleQuote quote t = some reading) :
    Splits reading t := by
  fun_induction untilTripleQuote quote t generalizing reading with
  | case1 => cases found
  | case2 c rest closed =>
    cases found
    obtain ⟨rfl, closing⟩ : c = quote ∧ [quote, quote].isPrefixOf rest = true := by
      simpa using closed
    obtain ⟨after, rfl⟩ := List.isPrefixOf_iff_prefix.mp closing
    rfl
  | case3 => cases found
  | case4 d after _ ih =>
    obtain ⟨more, read, rfl⟩ := Option.map_eq_some_iff.mp found
    exact (ih read).cons.cons
  | case5 c rest _ _ ih =>
    obtain ⟨more, read, rfl⟩ := Option.map_eq_some_iff.mp found
    exact (ih read).cons

theorem proper_string : Proper string := by
  intro t reading found
  unfold string at found
  split at found
  · next letters quote body marked =>
    have splits := splits_mark marked
    split at found
    · obtain ⟨more, read, rfl⟩ := Option.map_eq_some_iff.mp found
      refine ⟨List.append_ne_nil_of_right_ne_nil _ (List.cons_ne_nil _ _), ?_⟩
      exact splits.extend (splits_untilQuote read).cons
    · cases found
  · cases found

theorem proper_longString : Proper longString := by
  intro t reading found
  unfold longString at found
  split at found
  · next letters quote body marked =>
    have splits := splits_mark marked
    split at found
    · next opened =>
      obtain ⟨more, read, rfl⟩ := Option.map_eq_some_iff.mp found
      have opening : [quote, quote].isPrefixOf body = true := by simp_all
      obtain ⟨after, rfl⟩ := List.isPrefixOf_iff_prefix.mp opening
      refine ⟨by simp [append], ?_⟩
      have rest : Splits more after := splits_untilTripleQuote read
      rw [Splits] at splits rest ⊢
      rw [← splits, ← rest]
      simp [append]
    · cases found
  · cases found

end VyperFront.Lexeme
