import Mathlib.Data.List.TakeWhile
import VyperFront.Proofs.Lexeme.Within

/-! Lexemes over line breaks: runs of line breaks, continuations and long strings. After a
line feed nothing that came before it counts for how a run goes on. A continuation and a long
string end where they end, whatever comes next. -/

namespace VyperFront.Lexeme

variable {u t lexeme rest after more : Text} {mode : LineMode} {quote : Char}

/-- What the recognizer reads, or that it reads nothing, is told by what comes before the
line feed. -/
def Told (r : Recognizer) (u : Text) : Prop :=
  ∀ after, r (u ++ '\n' :: after) = (r u).map (leave ('\n' :: after))

theorem leave_leave (reading : Text × Text) (a b : Text) :
    leave b (leave a reading) = leave (a ++ b) reading := by
  simp [leave]

theorem Within.told {r : Recognizer} (within : Within r) (u : Text) : Told r u := by
  intro after
  have split := List.takeWhile_append_dropWhile (p := (· ≠ '\n')) (l := u)
  have inside : '\n' ∉ u.takeWhile (· ≠ '\n') := by
    intro member
    simpa using List.mem_takeWhile_imp member
  have stops := List.head?_dropWhile_not (· ≠ '\n') u
  generalize u.takeWhile (· ≠ '\n') = line at split inside
  generalize u.dropWhile (· ≠ '\n') = rest at split stops
  subst split
  cases rest with
  | nil => rw [List.append_nil, within inside (.feed after)]
  | cons c rest =>
    obtain rfl : c = '\n' := by simpa using stops
    have whole := within inside (.feed (rest ++ '\n' :: after))
    rw [List.append_assoc, List.cons_append, whole, within inside (.feed rest), Option.map_map]
    simp [Function.comp_def, leave_leave]

/-- A run of line breaks stops before the line feed, or it goes on past it as after any
other one. -/
theorem moreLines_feed (mode : LineMode) (u : Text) :
    (∀ after, moreLines mode (u ++ '\n' :: after) = leave ('\n' :: after) (moreLines mode u)) ∨
      ∀ after, moreLines mode (u ++ '\n' :: after) =
        append (u ++ ['\n']) (moreLines .indentation after) := by
  fun_induction moreLines mode u with
  | case1 mode =>
    right
    intro after
    cases mode <;> simp [moreLines, append, cons]
  | case2 c rest ih =>
    rcases ih with stops | goes
    · exact .inl fun after => by simp only [List.cons_append, moreLines, stops]; rfl
    · exact .inr fun after => by simp only [List.cons_append, moreLines, goes]; rfl
  | case3 rest ih =>
    rcases ih with stops | goes
    · exact .inl fun after => by simp [moreLines, stops]
    · exact .inr fun after => by simp [moreLines, goes, append, cons]
  | case4 c rest broken blank ih =>
    have step (after : Text) : moreLines .indentation (c :: rest ++ '\n' :: after) =
        cons c (moreLines .indentation (rest ++ '\n' :: after)) := by
      rw [List.cons_append, moreLines, if_pos blank]
      rintro _ rfl
      simp at blank
    rcases ih with stops | goes
    · exact .inl fun after => by rw [step, stops]; rfl
    · exact .inr fun after => by rw [step, goes]; rfl
  | case5 rest _ _ ih =>
    have step (after : Text) : moreLines .indentation ('#' :: rest ++ '\n' :: after) =
        cons '#' (moreLines .comment (rest ++ '\n' :: after)) := by
      simp [moreLines]
    rcases ih with stops | goes
    · exact .inl fun after => by rw [step, stops]; rfl
    · exact .inr fun after => by rw [step, goes]; rfl
  | case6 c rest broken other plain =>
    by_cases return_ : c = '\r' ∧ rest = []
    · obtain ⟨rfl, rfl⟩ := return_
      exact .inr fun after => by simp [moreLines, append, cons]
    · refine .inl fun after => ?_
      rw [List.cons_append, moreLines, if_neg other, if_neg plain]
      · rfl
      · rintro more rfl same
        cases rest with
        | nil => exact return_ ⟨rfl, rfl⟩
        | cons d others =>
          obtain rfl : d = '\n' := (List.cons.inj same).1
          exact broken _ rfl rfl

/-- A run of line breaks goes on past the line feed, or it is told by what comes before. -/
theorem newline_feed (u : Text) :
    Told newline u ∨
      ∀ after, newline (u ++ '\n' :: after) =
        some (append (u ++ ['\n']) (moreLines .indentation after)) := by
  have goesOn (c : Char) (mode : LineMode) (u : Text)
      (begins : ∀ t, newline (c :: t) = some (cons c (moreLines mode t))) :
      Told newline (c :: u) ∨ ∀ after, newline (c :: u ++ '\n' :: after) =
        some (append (c :: u ++ ['\n']) (moreLines .indentation after)) := by
    rcases moreLines_feed mode u with stops | goes
    · exact .inl fun after => by simp [begins, stops]
    · exact .inr fun after => by simp [begins, goes, append, cons]
  cases u with
  | nil => exact .inr fun after => rfl
  | cons c u =>
    by_cases feed : c = '\n'
    · subst feed
      exact goesOn '\n' .indentation u fun _ => rfl
    by_cases comment : c = '#'
    · subst comment
      exact goesOn '#' .comment u fun _ => rfl
    by_cases return_ : c = '\r'
    · subst return_
      cases u with
      | nil => exact .inr fun after => rfl
      | cons d u =>
        by_cases feed : d = '\n'
        · subst feed
          rcases moreLines_feed .indentation u with stops | goes
          · exact .inl fun after => by simp [newline, stops]
          · exact .inr fun after => by simp [newline, goes, append, cons]
        · exact .inl fun after => by simp [newline, feed]
    · exact .inl fun after => by simp [newline, feed, comment, return_]

/-- A run of line breaks that stops before a character stops there whatever comes next, unless
that makes a line break of a carriage return. -/
theorem moreLines_closed {c : Char} (found : moreLines mode t = (lexeme, c :: rest))
    (apart : c = '\r' → more.head? ≠ some '\n') :
    moreLines mode (lexeme ++ c :: more) = (lexeme, c :: more) := by
  fun_induction moreLines mode t generalizing lexeme with
  | case1 => cases found
  | case2 d t ih =>
    obtain ⟨rfl, later⟩ := Prod.mk.inj found
    simp [moreLines, ih (Prod.ext rfl later), cons]
  | case3 t ih =>
    obtain ⟨rfl, later⟩ := Prod.mk.inj found
    simp [moreLines, ih (Prod.ext rfl later), cons]
  | case4 d t broken blank ih =>
    obtain ⟨rfl, later⟩ := Prod.mk.inj found
    have again := ih (Prod.ext rfl later)
    rw [List.cons_append, moreLines, if_pos blank, again]
    · rfl
    · rintro _ rfl
      simp at blank
  | case5 t _ _ ih =>
    obtain ⟨rfl, later⟩ := Prod.mk.inj found
    simp [moreLines, ih (Prod.ext rfl later), cons]
  | case6 d t broken other plain =>
    cases found
    rw [List.nil_append, moreLines, if_neg other, if_neg plain]
    rintro t rfl rfl
    exact apart rfl rfl

theorem parted_of_newline (begins : newline t ≠ none) : Parted t := by
  unfold newline at begins
  split at begins
  · exact .cons (by simp [separators]) _
  · exact .cons (by simp [separators]) _
  · exact .cons (by simp [separators]) _
  · exact absurd rfl begins

theorem newline_moreLines (mode : LineMode) (t : Text) : newline (moreLines mode t).2 = none := by
  fun_induction moreLines mode t with
  | case1 => rfl
  | case2 _ _ ih => exact ih
  | case3 _ ih => exact ih
  | case4 _ _ _ _ ih => exact ih
  | case5 _ _ _ ih => exact ih
  | case6 c t broken other plain =>
    rw [newline.eq_def]
    split
    · next same =>
      cases same
      simp at other
    · next same =>
      cases same
      exact absurd rfl (broken _ rfl)
    · next same =>
      cases same
      exact absurd rfl plain
    · rfl

theorem newline_rest (found : newline t = some (lexeme, rest)) : newline rest = none := by
  unfold newline at found
  split at found
  · cases found
    exact newline_moreLines ..
  · cases found
    exact newline_moreLines ..
  · cases found
    exact newline_moreLines ..
  · cases found

/-- A run of line breaks is read the same whatever comes after the character that it stops
before, unless that makes a line break of a carriage return. -/
theorem newline_closed {c : Char} (found : newline t = some (lexeme, c :: rest))
    (apart : c = '\r' → more.head? ≠ some '\n') :
    newline (lexeme ++ c :: more) = some (lexeme, c :: more) := by
  unfold newline at found
  split at found
  · obtain ⟨rfl, later⟩ := Prod.mk.inj (Option.some.inj found)
    simp [newline, moreLines_closed (Prod.ext rfl later) apart, cons]
  · obtain ⟨rfl, later⟩ := Prod.mk.inj (Option.some.inj found)
    simp [newline, moreLines_closed (Prod.ext rfl later) apart, cons]
  · obtain ⟨rfl, later⟩ := Prod.mk.inj (Option.some.inj found)
    simp [newline, moreLines_closed (Prod.ext rfl later) apart, cons]
  · cases found

/-- A blank line, or one that holds nothing but a comment. -/
def Blank (line : Text) : Prop :=
  ∃ blanks comment, line = blanks ++ comment ∧ (∀ c ∈ blanks, c = ' ' ∨ c = '\t') ∧
    '\n' ∉ comment ∧ (comment = [] ∨ comment.head? = some '#')

theorem moreLines_blanks {blanks : Text} (blank : ∀ c ∈ blanks, c = ' ' ∨ c = '\t')
    (t : Text) :
    moreLines .indentation (blanks ++ t) = append blanks (moreLines .indentation t) := by
  induction blanks with
  | nil => rfl
  | cons c rest ih =>
    obtain ⟨here, later⟩ := List.forall_mem_cons.mp blank
    rw [List.cons_append, moreLines, if_pos (.inr here), ih later]
    · rfl
    · rintro _ rfl
      simp at here

private theorem moreLines_comment {text : Text} (inside : '\n' ∉ text) (t : Text) :
    moreLines .comment (text ++ '\n' :: t) =
      append (text ++ ['\n']) (moreLines .indentation t) := by
  induction text with
  | nil => rfl
  | cons c rest ih =>
    simp only [List.mem_cons, not_or] at inside
    rw [List.cons_append, moreLines, if_neg (Ne.symm inside.1), ih inside.2]
    rfl

theorem moreLines_blank {line : Text} (blank : Blank line) (t : Text) :
    moreLines .indentation (line ++ '\n' :: t) =
      append (line ++ ['\n']) (moreLines .indentation t) := by
  obtain ⟨blanks, comment, rfl, spaces, inside, none | begins⟩ := blank
  · subst none
    rw [List.append_nil, moreLines_blanks spaces, moreLines, if_pos (.inl rfl)]
    · simp [append, cons]
    · intro _ same
      cases same
  · obtain ⟨text, rfl⟩ := List.head?_eq_some_iff.mp begins
    have rest : '\n' ∉ text := fun member => inside (List.mem_cons_of_mem _ member)
    rw [List.append_assoc, moreLines_blanks spaces, List.cons_append, moreLines]
    · simp [moreLines_comment rest, append, cons]
    · intro _ same
      cases same

theorem run_of_forall {p : Char → Bool} {front tail : Text} (passes : ∀ c ∈ front, p c = true)
    (stops : ∀ c ∈ tail.head?, p c = false) : run p (front ++ tail) = (front, tail) := by
  rw [run, List.takeWhile_append_of_pos passes, List.dropWhile_append_of_pos passes]
  cases tail with
  | nil => simp
  | cons c rest => simp [stops c rfl]

theorem exists_of_run {p : Char → Bool} (t : Text) :
    ∃ front tail, t = front ++ tail ∧ (∀ c ∈ front, p c = true) ∧
      (∀ c ∈ tail.head?, p c = false) ∧ run p t = (front, tail) := by
  refine ⟨t.takeWhile p, t.dropWhile p, List.takeWhile_append_dropWhile.symm,
    fun c member => List.mem_takeWhile_imp member, fun c head => ?_, rfl⟩
  have stops := List.head?_dropWhile_not p t
  rw [Option.mem_def.mp head] at stops
  exact stops

/-- No spacing is at the front of the text. -/
def Solid (t : Text) : Prop := ∀ c ∈ t.head?, isSpacing c = false

theorem spacing_eq_some_iff :
    spacing t = some (lexeme, rest) ↔
      t = lexeme ++ rest ∧ lexeme ≠ [] ∧ (∀ c ∈ lexeme, isSpacing c = true) ∧ Solid rest := by
  constructor
  · intro found
    obtain ⟨blanks, tail, rfl, blank, solid, same⟩ := exists_of_run (p := isSpacing) t
    rw [spacing, same] at found
    cases blanks with
    | nil => cases found
    | cons =>
      cases found
      exact ⟨rfl, List.cons_ne_nil _ _, blank, solid⟩
  · rintro ⟨rfl, some, blank, solid⟩
    rw [spacing, run_of_forall blank solid]
    cases lexeme with
    | nil => exact absurd rfl some
    | cons => rfl

theorem solid_of_spacing (unread : spacing t = none) : Solid t := by
  obtain ⟨blanks, tail, rfl, _, solid, same⟩ := exists_of_run (p := isSpacing) t
  rw [spacing, same] at unread
  cases blanks with
  | nil => exact solid
  | cons => cases unread

/-- A line break by itself. -/
def oneBreak : Recognizer
  | '\n' :: after => some (['\n'], after)
  | '\r' :: '\n' :: after => some (['\r', '\n'], after)
  | _ => none

theorem oneBreak_feed (u : Text) :
    Told oneBreak u ∨ ∀ after, oneBreak (u ++ '\n' :: after) = some (u ++ ['\n'], after) := by
  cases u with
  | nil => exact .inr fun after => rfl
  | cons c u =>
    by_cases feed : c = '\n'
    · subst feed
      exact .inl fun after => rfl
    by_cases return_ : c = '\r'
    · subst return_
      cases u with
      | nil => exact .inr fun after => rfl
      | cons d u =>
        by_cases feed : d = '\n'
        · subst feed
          exact .inl fun after => rfl
        · exact .inl fun after => by simp [oneBreak, feed]
    · exact .inl fun after => by simp [oneBreak, feed, return_]

/-- After the spacing that follows a backslash there has to be a line break. -/
theorem continuation_of_run {blanks tail : Text} (blank : ∀ c ∈ blanks, isSpacing c = true)
    (stops : ∀ c ∈ tail.head?, isSpacing c = false) :
    continuation ('\\' :: (blanks ++ tail)) = (oneBreak tail).map (append ('\\' :: blanks)) := by
  rw [continuation, run_of_forall blank stops]
  split
  · next same =>
    cases same
    rfl
  · next same =>
    cases same
    rfl
  · next feed return_ =>
    rw [oneBreak.eq_def]
    split
    · exact absurd rfl (feed _ _)
    · exact absurd rfl (return_ _ _)
    · rfl

theorem continuation_feed (u : Text) :
    Told continuation u ∨
      ∀ after, continuation (u ++ '\n' :: after) = some (u ++ ['\n'], after) := by
  cases u with
  | nil => exact .inl fun after => rfl
  | cons c rest =>
    by_cases backslash : c = '\\'
    · subst backslash
      obtain ⟨blanks, tail, rfl, blank, stops, -⟩ := exists_of_run (p := isSpacing) rest
      have same (after : Text) : continuation ('\\' :: (blanks ++ tail) ++ '\n' :: after) =
          (oneBreak (tail ++ '\n' :: after)).map (append ('\\' :: blanks)) := by
        rw [List.cons_append, List.append_assoc]
        apply continuation_of_run blank
        intro c head
        cases tail with
        | nil =>
          cases head
          rfl
        | cons d more => exact stops c head
      rcases oneBreak_feed tail with told | goes
      · refine .inl fun after => ?_
        rw [same, told, continuation_of_run blank stops]
        simp [Function.comp_def]
      · refine .inr fun after => ?_
        rw [same, goes]
        simp [append]
    · exact .inl fun after => by simp [continuation, backslash]

theorem continuation_closed (found : continuation t = some (lexeme, rest)) (more : Text) :
    continuation (lexeme ++ more) = some (lexeme, more) := by
  cases t with
  | nil => cases found
  | cons c t =>
    obtain rfl : c = '\\' := by
      by_contra other
      simp [continuation, other] at found
    obtain ⟨blanks, tail, rfl, blank, stops, -⟩ := exists_of_run (p := isSpacing) t
    rw [continuation_of_run blank stops] at found
    obtain ⟨⟨feed, after⟩, read, same⟩ := Option.map_eq_some_iff.mp found
    cases same
    have again (stops : ∀ c ∈ (feed ++ more).head?, isSpacing c = false) :=
      continuation_of_run blank stops
    unfold oneBreak at read
    split at read
    · cases read
      simpa [append, oneBreak] using again (by simp [isSpacing])
    · cases read
      simpa [append, oneBreak] using again (by simp [isSpacing])
    · cases read

private theorem three_le_length (found : untilTripleQuote quote t = some (lexeme, rest)) :
    3 ≤ lexeme.length := by
  fun_induction untilTripleQuote quote t generalizing lexeme rest with
  | case1 => cases found
  | case2 =>
    cases found
    simp
  | case3 => cases found
  | case4 d after _ ih =>
    obtain ⟨⟨front, left⟩, read, same⟩ := Option.map_eq_some_iff.mp found
    cases same
    exact (ih read).trans (by simp only [cons, List.length_cons]; omega)
  | case5 c rest _ _ ih =>
    obtain ⟨⟨front, left⟩, read, same⟩ := Option.map_eq_some_iff.mp found
    cases same
    exact (ih read).trans (by simp)

/-- Whether a text begins with another is told by as much of it as the other is long. -/
private theorem isPrefixOf_append_of_le {expected front : Text}
    (long : expected.length ≤ front.length) (more : Text) :
    expected.isPrefixOf (front ++ more) = expected.isPrefixOf front := by
  rw [Bool.eq_iff_iff, List.isPrefixOf_iff_prefix, List.isPrefixOf_iff_prefix]
  exact ⟨fun begins => List.prefix_of_prefix_length_le begins (List.prefix_append ..) long,
    fun begins => begins.trans (List.prefix_append ..)⟩

theorem untilTripleQuote_closed (found : untilTripleQuote quote t = some (lexeme, rest))
    (more : Text) : untilTripleQuote quote (lexeme ++ more) = some (lexeme, more) := by
  fun_induction untilTripleQuote quote t generalizing lexeme rest with
  | case1 => cases found
  | case2 c rest closed =>
    cases found
    obtain ⟨rfl, -⟩ : c = quote ∧ _ := by simpa using closed
    rw [List.cons_append, untilTripleQuote.eq_def]
    simp
  | case3 => cases found
  | case4 d after open_ ih =>
    obtain ⟨⟨front, left⟩, read, same⟩ := Option.map_eq_some_iff.mp found
    cases same
    have long := three_le_length read
    have splits : front ++ left = after := splits_untilTripleQuote read
    rw [← splits, ← List.cons_append, isPrefixOf_append_of_le (by simp; omega)] at open_
    change untilTripleQuote quote ('\\' :: d :: (front ++ more)) = _
    rw [untilTripleQuote.eq_def]
    dsimp only
    rw [← List.cons_append, isPrefixOf_append_of_le (by simp; omega), if_neg open_, ih read]
    rfl
  | case5 c rest open_ plain ih =>
    obtain ⟨⟨front, left⟩, read, same⟩ := Option.map_eq_some_iff.mp found
    cases same
    have long := three_le_length read
    have splits : front ++ left = rest := splits_untilTripleQuote read
    rw [← splits, isPrefixOf_append_of_le (by simp; omega)] at open_
    change untilTripleQuote quote (c :: (front ++ more)) = _
    rw [untilTripleQuote.eq_def]
    dsimp only
    rw [isPrefixOf_append_of_le (by simp; omega), if_neg open_, if_neg plain, ih read]
    rfl

theorem untilQuote_closed (found : untilQuote quote t = some (lexeme, rest)) (more : Text) :
    untilQuote quote (lexeme ++ more) = some (lexeme, more) := by
  fun_induction untilQuote quote t generalizing lexeme rest with
  | case1 => cases found
  | case2 t =>
    cases found
    simp [untilQuote.eq_def]
  | case3 => cases found
  | case4 => cases found
  | case5 => cases found
  | case6 d t unbroken open_ _ ih =>
    obtain ⟨⟨front, left⟩, read, same⟩ := Option.map_eq_some_iff.mp found
    cases same
    change untilQuote quote ('\\' :: d :: (front ++ more)) = _
    rw [untilQuote.eq_def]
    simp [open_, unbroken, ih read, cons]
  | case7 c t open_ unbroken plain ih =>
    obtain ⟨⟨front, left⟩, read, same⟩ := Option.map_eq_some_iff.mp found
    cases same
    change untilQuote quote (c :: (front ++ more)) = _
    rw [untilQuote.eq_def]
    simp [open_, unbroken, plain, ih read, cons]

/-- A long string begins with the text and is not closed in it. -/
structure Unclosed (t letters : Text) (quote : Char) (body : Text) : Prop where
  marked : mark longMarks t = some (letters, quote :: quote :: quote :: body)
  isQuote : isQuote quote = true
  unclosed : untilTripleQuote quote body = none

theorem plain_longMarks : Plain longMarks := by decide

/-- A long string that is not closed before the line feed goes on past it, or is not closed
there, either. -/
theorem Unclosed.feed {letters body : Text} (unclosed : Unclosed u letters quote body)
    (after : Text) :
    (∃ lexeme rest, longString (u ++ '\n' :: after) = some (lexeme, rest) ∧
      u.length < lexeme.length) ∨
    Unclosed (u ++ '\n' :: after) letters quote (body ++ '\n' :: after) := by
  have marked : mark longMarks (u ++ '\n' :: after) =
      some (letters, quote :: quote :: quote :: (body ++ '\n' :: after)) := by
    rcases mark_append plain_longMarks (Ends.feed after).parted u with same | ⟨_, alone⟩
    · rw [same, unclosed.marked]
      rfl
    · cases alone _ _ unclosed.marked
  cases closed : untilTripleQuote quote (body ++ '\n' :: after) with
  | none => exact .inr ⟨marked, unclosed.isQuote, closed⟩
  | some reading =>
    obtain ⟨lexeme, rest⟩ := reading
    left
    refine ⟨letters ++ [quote, quote, quote] ++ lexeme, rest, ?_, ?_⟩
    · simp [longString, marked, unclosed.isQuote, closed, append]
    · have whole := congrArg List.length (splits_mark unclosed.marked)
      have splits : lexeme ++ rest = body ++ '\n' :: after := splits_untilTripleQuote closed
      by_contra short
      have front : lexeme <+: body := by
        apply List.prefix_of_prefix_length_le (List.prefix_append lexeme rest)
        · rw [splits]
          exact List.prefix_append ..
        · simp at whole short
          omega
      obtain ⟨more, rfl⟩ := front
      have none := unclosed.unclosed
      rw [untilTripleQuote_closed closed] at none
      cases none

theorem longString_feed (u : Text) :
    Told longString u ∨ ∃ letters quote body, Unclosed u letters quote body := by
  have marks (after : Text) := mark_append plain_longMarks (Ends.feed after).parted u
  cases marked : mark longMarks u with
  | none =>
    refine .inl fun after => ?_
    rcases marks after with same | ⟨none, _⟩
    · simp [longString, same, marked]
    · simp [longString, none, marked]
  | some reading =>
    obtain ⟨letters, rest⟩ := reading
    cases rest with
    | nil =>
      refine .inl fun after => ?_
      rcases marks after with same | ⟨none, _⟩
      · simp [longString, same, marked, leave, isQuote]
      · simp [longString, none, marked]
    | cons quote rest =>
      have same (after : Text) : mark longMarks (u ++ '\n' :: after) =
          some (letters, quote :: (rest ++ '\n' :: after)) := by
        rcases marks after with same | ⟨_, alone⟩
        · rw [same, marked]
          rfl
        · cases alone _ _ marked
      by_cases isQuote : isQuote quote = true
      · have quotes (after : Text) := isPrefixOf_quotes (Ends.feed after).parted isQuote rest
        by_cases opened : [quote, quote].isPrefixOf rest = true
        · obtain ⟨body, rfl⟩ := List.isPrefixOf_iff_prefix.mp opened
          cases closed : untilTripleQuote quote body with
          | none => exact .inr ⟨letters, quote, body, marked, isQuote, closed⟩
          | some reading =>
            have splits : reading.1 ++ reading.2 = body := splits_untilTripleQuote closed
            refine .inl fun after => ?_
            have again := untilTripleQuote_closed closed (reading.2 ++ '\n' :: after)
            rw [← List.append_assoc, splits] at again
            simp [longString, same, marked, isQuote, closed, again, append, leave]
        · exact .inl fun after => by simp [longString, same, marked, quotes, opened]
      · exact .inl fun after => by simp [longString, same, marked, isQuote]

end VyperFront.Lexeme
