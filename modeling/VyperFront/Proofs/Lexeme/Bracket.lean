import Mathlib.Data.List.TakeWhile
import VyperFront.Proofs.Lexeme
import VyperFront.Proofs.Text.Bracket

namespace VyperFront.Lexeme

variable {t lexeme : Text} {reading : Text × Text} {c : Char} {p isDigit : Char → Bool}

/-- The recognizer reads no brackets. -/
def Bare (r : Recognizer) : Prop := ∀ {t reading}, r t = some reading → reading.1.brackets = []

/-- No bracket passes the test. -/
def Bars (p : Char → Bool) : Prop := ∀ c ∈ ['(', ')', '[', ']', '\x7b', '\x7d'], p c = false

instance (p : Char → Bool) : Decidable (Bars p) := List.decidableBAll ..

theorem Bars.not_isBracket (bars : Bars p) (passes : p c = true) : isBracket c = false := by
  apply Bool.eq_false_iff.mpr
  intro bracket
  rw [bars c (List.contains_iff_mem.mp bracket)] at passes
  cases passes

theorem brackets_cons (other : isBracket c = false) (t : Text) :
    Text.brackets (c :: t) = t.brackets :=
  List.filter_cons_of_neg (by simp [other])

theorem brackets_eq_nil_of_forall (bars : Bars p) (all : ∀ c ∈ t, p c = true) : t.brackets = [] :=
  Text.brackets_eq_nil_iff.mpr fun c member => bars.not_isBracket (all c member)

theorem brackets_run (bars : Bars p) (t : Text) : (run p t).1.brackets = [] :=
  brackets_eq_nil_of_forall bars fun _ member => List.mem_takeWhile_imp member

theorem bare_name : Bare name := by
  intro t reading found
  have bars : Bars isWordChar := by decide
  unfold name at found
  split at found
  · cases found
  · next c rest =>
    split at found
    · next first =>
      cases found
      rw [Bool.and_eq_true] at first
      exact (brackets_cons (bars.not_isBracket first.1) _).trans (brackets_run bars rest)
    · cases found

theorem bare_spacing : Bare spacing := by
  intro t reading found
  have bare := brackets_run (p := isSpacing) (by decide) t
  unfold spacing at found
  split at found
  · cases found
  · cases found
    exact bare

theorem bare_continuation : Bare continuation := by
  intro t reading found
  unfold continuation at found
  split at found
  · next rest =>
    have bare := brackets_run (p := isSpacing) (by decide) rest
    split at found
    · next blanks after same =>
      cases found
      rw [same] at bare
      rw [Text.brackets_append, brackets_cons (by decide), bare]
      rfl
    · next blanks after same =>
      cases found
      rw [same] at bare
      rw [Text.brackets_append, brackets_cons (by decide), bare]
      rfl
    · cases found
  · cases found

theorem brackets_moreDigits (bars : Bars isDigit) (t : Text) :
    (moreDigits isDigit t).1.brackets = [] := by
  fun_induction moreDigits isDigit t with
  | case1 => rfl
  | case2 c rest digit ih => exact (brackets_cons (bars.not_isBracket digit) _).trans ih
  | case3 => rfl
  | case4 d rest digit _ ih =>
    exact (brackets_cons (by decide) _).trans ((brackets_cons (bars.not_isBracket digit) _).trans ih)
  | case5 => rfl
  | case6 => rfl

theorem bare_digits (bars : Bars isDigit) : Bare (digits isDigit) := by
  intro t reading found
  unfold digits at found
  split at found
  · cases found
  · split at found
    · next digit =>
      cases found
      exact (brackets_cons (bars.not_isBracket digit) _).trans (brackets_moreDigits bars _)
    · cases found

private theorem bars_isDigit : Bars Char.isDigit := by decide

theorem bare_exponent : Bare exponent := by
  intro t reading found
  have digits {t : Text} {reading : Text × Text} := @bare_digits _ bars_isDigit t reading
  have letters : Bars fun c => decide (c = 'e' ∨ c = 'E') := by decide
  have signs : Bars fun c => decide (c = '+' ∨ c = '-') := by decide
  unfold exponent at found
  split at found
  · cases found
  · split at found
    · next letter =>
      have first := letters.not_isBracket (decide_eq_true letter)
      split at found
      · cases found
      · split at found
        · next sign =>
          obtain ⟨power, read, rfl⟩ := Option.map_eq_some_iff.mp found
          have second := signs.not_isBracket (decide_eq_true sign)
          exact (brackets_cons first _).trans ((brackets_cons second _).trans (digits read))
        · obtain ⟨power, read, rfl⟩ := Option.map_eq_some_iff.mp found
          exact (brackets_cons first _).trans (digits read)
    · cases found

theorem brackets_withExponent (bare : reading.1.brackets = []) :
    (withExponent reading).1.brackets = [] := by
  unfold withExponent
  split
  · next more read =>
    rw [append, Text.brackets_append, bare, bare_exponent read]
    rfl
  · exact bare

theorem bare_floatNumber : Bare floatNumber := by
  intro t reading found
  have digits {t : Text} {reading : Text × Text} := @bare_digits _ bars_isDigit t reading
  have point (more : Text) (bare : more.brackets = []) : Text.brackets ('.' :: more) = [] :=
    (brackets_cons (by decide) _).trans bare
  unfold floatNumber at found
  split at found
  · next whole rest read =>
    have front := digits read
    split at found
    · next fraction more =>
      cases found
      apply brackets_withExponent
      rw [append, Text.brackets_append, front]
      exact point fraction.1 (digits more)
    · cases found
      apply brackets_withExponent
      rw [Text.brackets_append, front]
      rfl
  · next whole rest _ read =>
    obtain ⟨power, more, rfl⟩ := Option.map_eq_some_iff.mp found
    rw [append, Text.brackets_append, digits read, bare_exponent more]
    rfl
  · split at found
    · obtain ⟨fraction, more, rfl⟩ := Option.map_eq_some_iff.mp found
      exact brackets_withExponent (point _ (digits more))
    · cases found

theorem bare_based {letters : List Char} (bars : Bars isDigit) (named : Bars letters.contains) :
    Bare (based letters isDigit) := by
  intro t reading found
  unfold based at found
  split at found
  · next letter rest =>
    split at found
    · next listed =>
      split at found
      · cases found
      · cases found
        refine (brackets_cons (by decide) _).trans ?_
        exact (brackets_cons (named.not_isBracket listed) _).trans (brackets_moreDigits bars rest)
    · cases found
  · cases found

theorem brackets_moreZeros (found : moreZeros t = some reading) : reading.1.brackets = [] := by
  fun_induction moreZeros t generalizing reading with
  | case1 =>
    cases found
    rfl
  | case2 rest more _ ih =>
    cases found
    exact (brackets_cons (by decide) _).trans (ih ‹_›)
  | case3 =>
    cases found
    rfl
  | case4 rest more _ ih =>
    cases found
    exact (brackets_cons (by decide) _).trans ((brackets_cons (by decide) _).trans (ih ‹_›))
  | case5 =>
    cases found
    rfl
  | case6 => cases found
  | case7 =>
    cases found
    rfl

theorem bare_decNumber : Bare decNumber := by
  intro t reading found
  unfold decNumber at found
  split at found
  · cases found
  · split at found
    · next zero =>
      obtain ⟨zeros, read, rfl⟩ := Option.map_eq_some_iff.mp found
      exact (brackets_cons (by rw [zero]; decide) _).trans (brackets_moreZeros read)
    · split at found
      · next digit =>
        cases found
        exact (brackets_cons (bars_isDigit.not_isBracket digit) _).trans
          (brackets_moreDigits bars_isDigit _)
      · cases found

theorem brackets_moreLines (plain : '#' ∉ t) : (moreLines .indentation t).1.brackets = [] := by
  have blanks : Bars fun c => decide (c = '\n' ∨ c = ' ' ∨ c = '\t') := by decide
  generalize same : LineMode.indentation = mode
  fun_induction moreLines mode t with
  | case1 => rfl
  | case2 => cases same
  | case3 rest ih =>
    simp only [List.mem_cons, not_or] at plain
    refine (brackets_cons (by decide) _).trans ((brackets_cons (by decide) _).trans ?_)
    exact ih plain.2.2 rfl
  | case4 c rest _ blank ih =>
    rw [List.mem_cons, not_or] at plain
    have first := blanks.not_isBracket (decide_eq_true blank)
    exact (brackets_cons first _).trans (ih plain.2 rfl)
  | case5 c rest _ comment =>
    simp at plain
  | case6 => rfl

theorem brackets_newline (plain : '#' ∉ t) (found : newline t = some reading) :
    reading.1.brackets = [] := by
  unfold newline at found
  split at found
  · cases found
    rw [List.mem_cons, not_or] at plain
    exact (brackets_cons (by decide) _).trans (brackets_moreLines plain.2)
  · cases found
    simp only [List.mem_cons, not_or] at plain
    refine (brackets_cons (by decide) _).trans ((brackets_cons (by decide) _).trans ?_)
    exact brackets_moreLines plain.2.2
  · exact absurd List.mem_cons_self plain
  · cases found

theorem exists_quote_of_mark {allowed : List Text} {letters body : Text}
    (marked : mark allowed t = some (letters, c :: body)) (quote : isQuote c = true) :
    ∃ c ∈ t, isQuote c = true := by
  have splits : letters ++ c :: body = t := splits_mark marked
  exact ⟨c, splits ▸ by simp, quote⟩

theorem exists_quote_of_string (found : string t = some reading) : ∃ c ∈ t, isQuote c = true := by
  unfold string at found
  split at found
  · next marked =>
    split at found
    · next opened =>
      rw [Bool.and_eq_true] at opened
      exact exists_quote_of_mark marked opened.1
    · cases found
  · cases found

theorem exists_quote_of_longString (found : longString t = some reading) :
    ∃ c ∈ t, isQuote c = true := by
  unfold longString at found
  split at found
  · next marked =>
    split at found
    · next opened =>
      rw [Bool.and_eq_true] at opened
      exact exists_quote_of_mark marked opened.1
    · cases found
  · cases found

end VyperFront.Lexeme
