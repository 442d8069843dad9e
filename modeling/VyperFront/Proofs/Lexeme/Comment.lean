import VyperFront.Proofs.Lexeme.Bracket
import VyperFront.Proofs.Lexeme.Break
import VyperFront.Proofs.Lexer.Piece
import VyperFront.Proofs.Text.Comment

/-! Lexemes in a text with comments. Comments are a part of line breaks, and all other lexemes end
before them, unless they are in quotes. So without the comments the same lexemes are read. -/

namespace VyperFront

open Text

namespace Lexeme

/-- No strings begin in the text. -/
def Quoteless (t : Text) : Prop := ∀ c ∈ t, isQuote c = false

instance (t : Text) : Decidable (Quoteless t) := List.decidableBAll ..

/-- The reading of the text without its comments. -/
def uncomment (reading : Text × Text) : Text × Text :=
  (uncommented reading.1, uncommented reading.2)

variable {t front : Text} {reading : Text × Text} {r : Recognizer} {c : Char}

theorem Quoteless.string (plain : Quoteless t) : string t = none := by
  cases found : Lexeme.string t with
  | none => rfl
  | some reading =>
    obtain ⟨c, member, quote⟩ := exists_quote_of_string found
    rw [plain c member] at quote
    cases quote

theorem Quoteless.longString (plain : Quoteless t) : longString t = none := by
  cases found : Lexeme.longString t with
  | none => rfl
  | some reading =>
    obtain ⟨c, member, quote⟩ := exists_quote_of_longString found
    rw [plain c member] at quote
    cases quote

theorem Quoteless.uncommented (plain : Quoteless t) : Quoteless (uncommented t) :=
  fun c member => plain c (mem_of_mem_uncommentedFrom member)

theorem uncomment_cons (other : c ≠ '#') (reading : Text × Text) :
    uncomment (cons c reading) = cons c (uncomment reading) :=
  Prod.ext (uncommented_cons_of_ne other reading.1) rfl

theorem uncomment_append (plain : '#' ∉ front) (reading : Text × Text) :
    uncomment (append front reading) = append front (uncomment reading) :=
  Prod.ext (uncommented_append_of_not_mem plain reading.1) rfl

theorem exists_code (t : Text) : ∃ code after, t = code ++ after ∧ '\n' ∉ code ∧ '#' ∉ code ∧
    Parted after ∧ Parted (uncommented after) := by
  induction t with
  | nil => exact ⟨[], [], rfl, List.not_mem_nil, List.not_mem_nil, .nil, .nil⟩
  | cons c rest ih =>
    by_cases parts : c = '\n' ∨ c = '#'
    · have member : c ∈ separators := by rcases parts with rfl | rfl <;> decide
      refine ⟨[], c :: rest, rfl, List.not_mem_nil, List.not_mem_nil, .cons member rest, ?_⟩
      rcases parts with rfl | rfl
      · exact .cons member _
      · rw [uncommented_comment]
        exact .cons member _
    · obtain ⟨code, after, rfl, one, plain, parted, also⟩ := ih
      rw [not_or] at parts
      refine ⟨c :: code, after, rfl, ?_, ?_, parted, also⟩
      · exact List.not_mem_cons_of_ne_of_not_mem (Ne.symm parts.1) one
      · exact List.not_mem_cons_of_ne_of_not_mem (Ne.symm parts.2) plain

/-- What is read up to a separator is in front of the comments. -/
theorem Stopped.exists_code (stopped : Stopped r) (proper : Proper r) (found : r t = some reading) :
    ∃ code after, t = reading.1 ++ (code ++ after) ∧ reading.2 = code ++ after ∧
      '\n' ∉ reading.1 ∧ '#' ∉ reading.1 ∧ '#' ∉ code := by
  obtain ⟨code, after, rfl, one, plain, parted, -⟩ := Lexeme.exists_code t
  rw [stopped parted] at found
  obtain ⟨inner, read, rfl⟩ := Option.map_eq_some_iff.mp found
  obtain rfl : inner.1 ++ inner.2 = code := (proper read).2
  rw [List.mem_append, not_or] at one plain
  exact ⟨inner.2, after, List.append_assoc .., rfl, one.1, plain.1, plain.2⟩

theorem Stopped.uncommented (stopped : Stopped r) (proper : Proper r) (t : Text) :
    r (uncommented t) = (r t).map uncomment := by
  obtain ⟨code, after, rfl, -, plain, parted, also⟩ := Lexeme.exists_code t
  rw [uncommented_append_of_not_mem plain, stopped also, stopped parted]
  cases read : r code with
  | none => rfl
  | some inner =>
    obtain rfl : inner.1 ++ inner.2 = code := (proper read).2
    rw [List.mem_append, not_or] at plain
    exact congrArg some (Prod.ext (uncommented_of_not_mem plain.1).symm
      (uncommented_append_of_not_mem plain.2 after).symm)

theorem head?_uncommented (t : Text) : (uncommented t).head? = t.head? := by
  cases t with
  | nil => rfl
  | cons c rest =>
    by_cases feed : c = '\n'
    · rw [feed]
      rfl
    · rw [uncommented_cons feed]
      rfl

theorem exists_blanks (t : Text) : ∃ blanks tail, t = blanks ++ tail ∧ '#' ∉ blanks ∧
    (∀ c ∈ blanks, isSpacing c = true) ∧ Solid tail ∧ Solid (uncommented tail) := by
  obtain ⟨blanks, tail, rfl, blank, solid, -⟩ := exists_of_run (p := isSpacing) t
  refine ⟨blanks, tail, rfl, fun mark => absurd (blank _ mark) (by decide), blank, solid, ?_⟩
  rwa [Solid, head?_uncommented]

theorem spacing_uncommented (t : Text) : spacing (uncommented t) = (spacing t).map uncomment := by
  obtain ⟨blanks, tail, rfl, plain, blank, solid, also⟩ := exists_blanks t
  rw [uncommented_append_of_not_mem plain, spacing, spacing, run_of_forall blank solid,
    run_of_forall blank also]
  cases blanks with
  | nil => rfl
  | cons c rest => exact congrArg some (Prod.ext (uncommented_of_not_mem plain).symm rfl)

theorem oneBreak_uncommented (t : Text) : oneBreak (uncommented t) = (oneBreak t).map uncomment := by
  have feed (rest : Text) : uncommented ('\n' :: rest) = '\n' :: uncommented rest := rfl
  cases t with
  | nil => rfl
  | cons c rest =>
    by_cases broken : c = '\n'
    · rw [broken, feed]
      rfl
    rw [uncommented_cons broken]
    by_cases return_ : c = '\r'
    · subst return_
      cases rest with
      | nil => rfl
      | cons d rest =>
        by_cases also : d = '\n'
        · rw [also]
          rfl
        · have same : uncommentedFrom (decide ('\r' = '#')) (d :: rest) = uncommented (d :: rest) := rfl
          rw [same, uncommented_cons also]
          simp [oneBreak, also]
    · simp [oneBreak, broken, return_]

theorem continuation_uncommented (t : Text) :
    continuation (uncommented t) = (continuation t).map uncomment := by
  cases t with
  | nil => rfl
  | cons c rest =>
    by_cases backslash : c = '\\'
    · subst backslash
      obtain ⟨blanks, tail, rfl, plain, blank, solid, also⟩ := exists_blanks rest
      have whole : '#' ∉ '\\' :: blanks := List.not_mem_cons_of_ne_of_not_mem (by decide) plain
      have split : uncommented ('\\' :: (blanks ++ tail)) = '\\' :: (blanks ++ uncommented tail) :=
        uncommented_append_of_not_mem whole tail
      rw [split, continuation_of_run blank solid, continuation_of_run blank also,
        oneBreak_uncommented, Option.map_map, Option.map_map]
      exact congrArg (Option.map · _) (funext fun reading => (uncomment_append whole reading).symm)
    · have none {t : Text} (head : t.head? = some c) : continuation t = none := by
        cases found : continuation t with
        | none => rfl
        | some reading =>
          obtain ⟨more, rfl⟩ := Lexer.exists_of_continuation found
          exact absurd (Option.some.inj head).symm backslash
      rw [none (head?_uncommented _), none (t := c :: rest) rfl]
      rfl

theorem mark_not_mem_continuation (found : continuation t = some reading) : '#' ∉ reading.1 := by
  have blank {more : Text} : '#' ∉ (run isSpacing more).1 := fun mark =>
    absurd (List.mem_takeWhile_imp mark) (by decide)
  unfold continuation at found
  split at found
  · next rest =>
    have blank := @blank rest
    split at found
    · next same =>
      cases found
      rw [same] at blank
      simpa using blank
    · next same =>
      cases found
      rw [same] at blank
      simpa using blank
    · cases found
  · cases found

theorem mark_not_mem_spacing (found : spacing t = some reading) : '#' ∉ reading.1 := fun mark =>
  absurd ((spacing_eq_some_iff.mp found).2.2.1 _ mark) (by decide)

/-- Whether the mode is that of a comment. -/
def LineMode.inside : LineMode → Bool
  | .comment => true
  | .indentation => false

theorem moreLines_uncommentedFrom (mode : LineMode) (t : Text) :
    moreLines mode (uncommentedFrom mode.inside t) =
      (uncommentedFrom mode.inside (moreLines mode t).1, uncommented (moreLines mode t).2) := by
  fun_induction moreLines mode t with
  | case1 mode => cases mode <;> rfl
  | case2 c rest ih =>
    by_cases feed : c = '\n'
    · subst feed
      exact congrArg (cons '\n') ih
    · rw [if_neg feed] at ih ⊢
      rw [cons, LineMode.inside, uncommentedFrom_true_cons feed, uncommentedFrom_true_cons feed]
      exact ih
  | case3 rest ih => exact congrArg (cons '\r' <| cons '\n' ·) ih
  | case4 c rest broken blank ih =>
    have other : c ≠ '#' := by
      rintro rfl
      exact absurd blank (by decide)
    rw [LineMode.inside, ← uncommented, uncommented_cons_of_ne other, moreLines, if_pos blank]
    · exact (congrArg (cons c) ih).trans (uncomment_cons other _).symm
    · rintro _ rfl
      exact absurd blank (by decide)
  | case5 rest broken _ ih =>
    have step (t : Text) : uncommentedFrom false ('#' :: t) = '#' :: uncommentedFrom true t := rfl
    rw [LineMode.inside, step, cons, step]
    exact congrArg (cons '#') ih
  | case6 c rest broken other plain =>
    rw [LineMode.inside, ← uncommented, uncommented_cons_of_ne plain, moreLines, if_neg other,
      if_neg plain]
    · rfl
    · rintro more rfl same
      have head := head?_uncommented rest
      rw [same] at head
      obtain ⟨more, rfl⟩ := List.head?_eq_some_iff.mp head.symm
      exact broken more rfl rfl

theorem newline_uncommented (t : Text) : newline (uncommented t) = (newline t).map uncomment := by
  have lines (t : Text) : moreLines .indentation (uncommented t) =
      uncomment (moreLines .indentation t) := moreLines_uncommentedFrom .indentation t
  cases t with
  | nil => rfl
  | cons c rest =>
    by_cases feed : c = '\n'
    · rw [feed]
      exact congrArg (some ∘ cons '\n') (lines rest)
    rw [uncommented_cons feed]
    by_cases mark : c = '#'
    · rw [mark]
      exact congrArg (some ∘ cons '#') (moreLines_uncommentedFrom .comment rest)
    rw [decide_eq_false mark, ← uncommented]
    by_cases return_ : c = '\r'
    · subst return_
      cases rest with
      | nil => rfl
      | cons d rest =>
        by_cases also : d = '\n'
        · rw [also]
          exact congrArg (some ∘ cons '\r' ∘ cons '\n') (lines rest)
        · rw [uncommented_cons also]
          simp [newline, also]
    · simp [newline, feed, mark, return_]

/-- All that a recognizer reads is read without the comments, where there are no quotes. -/
theorem changes_uncommented (plain : Quoteless t) :
    Lexer.Changes t (uncommented t) uncomment where
  stopped stopped proper := stopped.uncommented proper t
  spacing := spacing_uncommented t
  string := by rw [plain.uncommented.string, plain.string]; rfl
  newline := newline_uncommented t
  continuation := continuation_uncommented t
  name found := by
    obtain ⟨_, _, _, _, _, mark, _⟩ := stopped_name.exists_code proper_name found
    exact uncommented_of_not_mem mark

/-- In a run of line breaks there are only blanks, line breaks and the marks of comments, if what
is in the comments is left out. -/
theorem mem_of_mem_moreLines (mode : LineMode) (t : Text) :
    ∀ c ∈ uncommentedFrom mode.inside (moreLines mode t).1, c ∈ ['\n', '\r', '#', ' ', '\t'] := by
  fun_induction moreLines mode t with
  | case1 mode => cases mode <;> exact List.forall_mem_nil _
  | case2 c rest ih =>
    rw [cons, LineMode.inside]
    by_cases feed : c = '\n'
    · subst feed
      exact List.forall_mem_cons.mpr ⟨by decide, ih⟩
    · rw [uncommentedFrom_true_cons feed]
      rw [if_neg feed] at ih ⊢
      exact ih
  | case3 rest ih =>
    exact List.forall_mem_cons.mpr ⟨by decide, List.forall_mem_cons.mpr ⟨by decide, ih⟩⟩
  | case4 c rest broken blank ih =>
    have other : c ≠ '#' := by
      rintro rfl
      exact absurd blank (by decide)
    rw [cons, LineMode.inside, ← uncommented, uncommented_cons_of_ne other]
    refine List.forall_mem_cons.mpr ⟨?_, ih⟩
    rcases blank with rfl | rfl | rfl <;> decide
  | case5 rest broken _ ih => exact List.forall_mem_cons.mpr ⟨by decide, ih⟩
  | case6 => exact List.forall_mem_nil _

theorem mem_of_mem_newline (found : newline t = some reading) :
    ∀ c ∈ uncommented reading.1, c ∈ ['\n', '\r', '#', ' ', '\t'] := by
  have whole := moreLines_of_newline found
  have inside := mem_of_mem_moreLines .indentation t
  rwa [whole] at inside

end Lexeme

namespace Lexer

open Lexeme

variable {wanted : TerminalSet} {t lexeme rest : Text} {kind : Terminal}

theorem piece_uncommented (plain : Quoteless t) (wanted : TerminalSet) :
    piece wanted (uncommented t) = (piece wanted t).map uncomment :=
  (changes_uncommented plain).piece fun _ => by
    rw [plain.uncommented.longString, plain.longString]
    rfl

/-- Without quotes, all that is read but line breaks is in a line, in front of its comment. -/
theorem plain_of_piece (plain : Quoteless t) (other : kind ≠ .newline)
    (found : piece wanted t = .token kind lexeme rest) : '\n' ∉ lexeme ∧ '#' ∉ lexeme := by
  have stops {r : Recognizer} (stopped : Stopped r) (proper : Proper r)
      (read : r t = some (lexeme, rest)) : '\n' ∉ lexeme ∧ '#' ∉ lexeme := by
    obtain ⟨_, _, _, _, one, mark, _⟩ := stopped.exists_code proper read
    exact ⟨one, mark⟩
  cases readBy_of_piece found with
  | pattern _ listed read =>
    have proper : Proper _ := proper_numbersAndStrings listed
    rw [numbersAndStrings_eq, List.mem_append] at listed
    rcases listed with short | others
    · rcases stopped_or_string short with stopped | same
      · exact stops stopped proper read
      · dsimp only at same
        rw [same, plain.string] at read
        cases read
    · simp only [List.mem_cons, Prod.mk.injEq, List.not_mem_nil, or_false] at others
      rcases others with ⟨_, rfl⟩ | ⟨_, rfl⟩ | ⟨newline, _⟩
      · rw [plain.longString] at read
        cases read
      · exact stops stopped_decNumber proper read
      · exact absurd newline other
  | name _ named | keyword _ named => exact stops stopped_name proper_name named
  | fixed _ _ listed read =>
    exact stops (stopped_of_mem_literals listed) (proper_literal (spelling_ne_nil listed)) read

/-- Without quotes, nothing that is read ends in a comment, where the text ends with a line feed. -/
theorem closed_of_reads (plain : Quoteless t) (ends : t.endsLine = true)
    (reads : (piece wanted t).Reads lexeme rest) : '#' ∉ lastLine lexeme := by
  have inside (apart : '#' ∉ lexeme) : '#' ∉ lastLine lexeme := fun mark =>
    apart ((lastLine_suffix lexeme).mem mark)
  have front := frontOf_piece wanted t
  cases found : piece wanted t with
  | none =>
    rw [found] at reads
    cases reads
  | ignored other left =>
    rw [found] at reads
    cases reads
    rcases piece_eq_ignored_iff.mp found with continued | spaced
    · exact inside (mark_not_mem_continuation continued)
    · exact inside (mark_not_mem_spacing spaced)
  | token kind other left =>
    rw [found] at reads front
    cases reads
    by_cases newline : kind = .newline
    · subst newline
      have broken := (piece_eq_newline_iff front.1).mp found
      intro mark
      exact absurd ((indentation_of_newline broken ends).2.1 _ mark) (by decide)
    · exact inside (plain_of_piece plain newline found).2

end Lexer

end VyperFront
