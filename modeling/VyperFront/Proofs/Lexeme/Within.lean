import VyperFront.Proofs.Lexeme

/-! Lexemes within a line. All but line breaks, continuations and long strings are told by
the line that they stand in: reading them stops before the line break at the latest, and
what comes after it changes nothing. Names, numbers and fixed texts stop before comments and
spaces, too. -/

namespace VyperFront.Lexeme

/-- Whether a line is over where the text begins. -/
inductive Ends : Text → Prop where
  | nil : Ends []
  | feed (after : Text) : Ends ('\n' :: after)
  | feedAfterReturn (after : Text) : Ends ('\r' :: '\n' :: after)

/-- Characters that part lexemes: a line break, a comment or a space begins with them. -/
def separators : List Char := ['\n', '\r', '#', ' ']

/-- Whether a text is over, or goes on with a character that parts it from what is before. -/
inductive Parted : Text → Prop where
  | nil : Parted []
  | cons {c : Char} (member : c ∈ separators) (after : Text) : Parted (c :: after)

/-- A reading that leaves more text. -/
def leave (more : Text) (reading : Text × Text) : Text × Text := (reading.1, reading.2 ++ more)

/-- The recognizer reads within a line, whatever comes after it. -/
def Within (r : Recognizer) : Prop :=
  ∀ ⦃line after⦄, '\n' ∉ line → Ends after → r (line ++ after) = (r line).map (leave after)

/-- The recognizer reads up to a separator at most, whatever comes after it. -/
def Stopped (r : Recognizer) : Prop :=
  ∀ ⦃front after⦄, Parted after → r (front ++ after) = (r front).map (leave after)

/-- No separator passes the test. -/
def Stops (p : Char → Bool) : Prop := ∀ c ∈ separators, p c = false

instance (p : Char → Bool) : Decidable (Stops p) :=
  decidable_of_iff (separators.all (!p ·) = true) (by simp [Stops])

variable {line after front : Text} {reading : Text × Text} {c d : Char} {p : Char → Bool}

theorem Ends.parted (ends : Ends after) : Parted after := by
  cases ends with
  | nil => exact .nil
  | feed => exact .cons (by simp [separators]) _
  | feedAfterReturn => exact .cons (by simp [separators]) _

theorem Stopped.within {r : Recognizer} (stopped : Stopped r) : Within r :=
  fun _ _ _ ends => stopped ends.parted

theorem ne_of_mem_separators (member : c ∈ separators) (other : d ∉ separators) : c ≠ d :=
  fun same => other (same ▸ member)

theorem Parted.head (parted : Parted after) : ∀ c ∈ after.head?, c ∈ separators := by
  cases parted with
  | nil => exact nofun
  | cons member => simpa using member

@[simp] theorem leave_nil (reading : Text × Text) : leave [] reading = reading := by
  simp [leave]

@[simp] theorem map_leave_nil (found : Option (Text × Text)) : found.map (leave []) = found := by
  cases found <;> simp

@[simp] theorem leave_cons (c : Char) (reading : Text × Text) :
    leave after (cons c reading) = cons c (leave after reading) := rfl

@[simp] theorem leave_append (front : Text) (reading : Text × Text) :
    leave after (append front reading) = append front (leave after reading) := rfl

theorem run_append (stops : ∀ c ∈ after.head?, p c = false) (line : Text) :
    run p (line ++ after) = leave after (run p line) := by
  induction line with
  | nil =>
    cases after with
    | nil => rfl
    | cons c rest => simp [run, leave, stops c rfl]
  | cons c rest ih =>
    by_cases passes : p c = true
    · simp [run, leave, passes] at ih ⊢
      exact ih
    · simp [run, leave, passes]

theorem stopped_name : Stopped name := by
  intro front after parted
  have stops : Stops isWordChar := by decide
  cases front with
  | nil =>
    cases parted with
    | nil => rfl
    | cons member => simp [name, stops _ member]
  | cons c rest =>
    rw [List.cons_append, name, name, run_append fun c head => stops c (parted.head c head)]
    split <;> rfl

theorem within_spacing : Within spacing := by
  intro line after _ ends
  have stops : ∀ c ∈ after.head?, isSpacing c = false := by
    cases ends <;> simp [isSpacing]
  have same := run_append stops line
  unfold spacing
  rw [same]
  obtain ⟨blanks, rest⟩ := run isSpacing line
  cases blanks <;> rfl

/-- A text without separators begins a text, or not, whatever comes after a separator. -/
theorem isPrefixOf_append {expected : Text} (plain : ∀ c ∈ expected, c ∉ separators)
    (parted : Parted after) (line : Text) :
    expected.isPrefixOf (line ++ after) = expected.isPrefixOf line := by
  rw [Bool.eq_iff_iff, List.isPrefixOf_iff_prefix, List.isPrefixOf_iff_prefix]
  refine ⟨fun front => ?_, fun front => front.trans (List.prefix_append line after)⟩
  by_cases long : expected.length ≤ line.length
  · exact List.prefix_of_prefix_length_le front (List.prefix_append line after) long
  · -- It would go on with the separator.
    obtain ⟨more, rfl⟩ := List.prefix_of_prefix_length_le (List.prefix_append line after) front
      (Nat.le_of_not_le long)
    rw [List.prefix_append_right_inj] at front
    cases more with
    | nil => simp
    | cons c more =>
      cases parted with
      | nil => simp at front
      | cons member =>
        obtain ⟨rfl, _⟩ := List.cons_prefix_cons.mp front
        exact absurd member (plain _ (by simp))

theorem stopped_literal {expected : Text} (plain : ∀ c ∈ expected, c ∉ separators) :
    Stopped (literal expected) := by
  intro front after parted
  unfold literal
  rw [isPrefixOf_append plain parted]
  split
  · next begins =>
    have long := (List.isPrefixOf_iff_prefix.mp begins).length_le
    simp [leave, List.drop_append_of_le_length long]
  · rfl

section Digits

variable {isDigit : Char → Bool} (stops : Stops isDigit) (parted : Parted after)

include stops parted

theorem moreDigits_append (line : Text) :
    moreDigits isDigit (line ++ after) = leave after (moreDigits isDigit line) := by
  fun_induction moreDigits isDigit line with
  | case1 =>
    rw [List.nil_append, leave]
    cases parted with
    | nil => rfl
    | @cons c member rest =>
      have other : c ≠ '_' := ne_of_mem_separators member (by simp [separators])
      simp [moreDigits.eq_def, stops c member, other]
  | case2 c rest digit ih =>
    rw [List.cons_append, moreDigits.eq_def]
    simp [digit, ih]
  | case3 other =>
    rw [List.cons_append, moreDigits.eq_def]
    cases parted with
    | nil => simp [other, leave]
    | cons member => simp [other, leave, stops _ member]
  | case4 d rest digit other ih =>
    rw [List.cons_append, List.cons_append, moreDigits.eq_def]
    simp [other, digit, ih]
  | case5 d rest noDigit other =>
    rw [List.cons_append, List.cons_append, moreDigits.eq_def]
    simp [other, noDigit, leave]
  | case6 c rest noDigit other =>
    rw [List.cons_append, moreDigits.eq_def]
    simp [noDigit, other, leave]

theorem digits_append (line : Text) :
    digits isDigit (line ++ after) = (digits isDigit line).map (leave after) := by
  cases line with
  | nil =>
    cases parted with
    | nil => rfl
    | cons member => simp [digits, stops _ member]
  | cons c rest =>
    rw [List.cons_append, digits, digits, moreDigits_append stops parted]
    split <;> rfl

end Digits

private theorem stops_isDigit : Stops Char.isDigit := by decide

theorem exponent_of_parted (parted : Parted after) : exponent after = none := by
  cases parted with
  | nil => rfl
  | @cons c member =>
    have small : c ≠ 'e' := ne_of_mem_separators member (by simp [separators])
    have great : c ≠ 'E' := ne_of_mem_separators member (by simp [separators])
    simp [exponent, small, great]

theorem exponent_append (parted : Parted after) (line : Text) :
    exponent (line ++ after) = (exponent line).map (leave after) := by
  cases line with
  | nil => exact exponent_of_parted parted
  | cons e rest =>
    by_cases letter : e = 'e' ∨ e = 'E'
    · cases rest with
      | nil =>
        cases parted with
        | nil => simp
        | @cons c member =>
          have noPlus : c ≠ '+' := ne_of_mem_separators member (by simp [separators])
          have noMinus : c ≠ '-' := ne_of_mem_separators member (by simp [separators])
          simp [exponent, letter, digits, noPlus, noMinus, stops_isDigit c member]
      | cons sign more =>
        have signed := digits_append stops_isDigit parted more
        have unsigned := digits_append stops_isDigit parted (sign :: more)
        rw [List.cons_append] at unsigned
        simp only [List.cons_append, exponent, if_pos letter, signed, unsigned]
        split <;> simp [Function.comp_def]
    · simp [exponent, letter]

theorem withExponent_leave (parted : Parted after) (reading : Text × Text) :
    withExponent (leave after reading) = leave after (withExponent reading) := by
  have more : exponent (leave after reading).2 = (exponent reading.2).map (leave after) :=
    exponent_append parted reading.2
  unfold withExponent
  rw [more]
  cases exponent reading.2 <;> rfl

private theorem floatNumber_of_parted (parted : Parted after) : floatNumber after = none := by
  have none : digits Char.isDigit after = none := digits_append stops_isDigit parted []
  cases parted with
  | nil => rfl
  | @cons c member =>
    have point : c ≠ '.' := ne_of_mem_separators member (by simp [separators])
    simp [floatNumber, none, point]

theorem stopped_floatNumber : Stopped floatNumber := by
  intro front after parted
  have whole := digits_append stops_isDigit parted front
  cases front with
  | nil => exact floatNumber_of_parted parted
  | cons c line =>
  unfold floatNumber
  rw [whole]
  cases read : digits Char.isDigit (c :: line) with
  | none =>
    by_cases point : c = '.'
    · subst point
      simp [digits_append stops_isDigit parted line, withExponent_leave parted, ← leave_cons,
        Function.comp_def]
    · simp [point]
  | some reading =>
    obtain ⟨front, rest⟩ := reading
    simp only [Option.map_some, leave]
    cases rest with
    | nil =>
      have here := exponent_of_parted parted
      have empty : exponent [] = none := rfl
      cases parted with
      | nil => simp [empty]
      | @cons d member =>
        have point : d ≠ '.' := ne_of_mem_separators member (by simp [separators])
        simp [point, here, empty]
    | cons d rest =>
      by_cases point : d = '.'
      · subst point
        simp only [List.cons_append, digits_append stops_isDigit parted rest]
        cases digits Char.isDigit rest with
        | none => exact congrArg some (withExponent_leave parted (front ++ ['.'], rest))
        | some fraction =>
          exact congrArg some (withExponent_leave parted (append front (cons '.' fraction)))
      · have more := exponent_append parted (d :: rest)
        rw [List.cons_append] at more
        simp [point, more, Function.comp_def]

theorem stopped_based {letters : List Char} {isDigit : Char → Bool} (stops : Stops isDigit)
    (plain : ∀ c ∈ separators, c ∉ letters) : Stopped (based letters isDigit) := by
  intro front after parted
  match front with
  | [] =>
    cases parted with
    | nil => rfl
    | @cons c member =>
      have zero : c ≠ '0' := ne_of_mem_separators member (by simp [separators])
      simp [based, zero]
  | [c] =>
    by_cases zero : c = '0'
    · subst zero
      cases parted with
      | nil => rfl
      | cons member => simp [based, plain _ member]
    · simp [based, zero]
  | c :: letter :: rest =>
    by_cases zero : c = '0'
    · subst zero
      simp only [List.cons_append, based, moreDigits_append stops parted]
      split
      · obtain ⟨front, rest⟩ := moreDigits isDigit rest
        cases front <;> rfl
      · rfl
    · simp [based, zero]

theorem stopped_hexNumber : Stopped hexNumber := stopped_based (by decide) (by simp [separators])

theorem stopped_octNumber : Stopped octNumber := stopped_based (by decide) (by simp [separators])

theorem stopped_binNumber : Stopped binNumber := stopped_based (by decide) (by simp [separators])

private theorem moreZeros_of_other {rest : Text} (zero : c ≠ '0')
    (grouped : c = '_' → rest.head? ≠ some '0') :
    moreZeros (c :: rest) = if '1' ≤ c && c ≤ '9' then none else some ([], c :: rest) := by
  rw [moreZeros]
  · exact zero
  · rintro more same rfl
    exact grouped same rfl

theorem moreZeros_append (parted : Parted after) (line : Text) :
    moreZeros (line ++ after) = (moreZeros line).map (leave after) := by
  have other {c : Char} {rest : Text} (zero : c ≠ '0') (grouped : c = '_' → rest.head? ≠ some '0') :
      moreZeros (c :: rest ++ after) = (moreZeros (c :: rest)).map (leave after) := by
    have also : c = '_' → (rest ++ after).head? ≠ some '0' := by
      intro underscore
      cases rest with
      | nil =>
        intro head
        exact absurd (parted.head _ head) (by simp [separators])
      | cons d more => simpa using grouped underscore
    rw [List.cons_append, moreZeros_of_other zero also, moreZeros_of_other zero grouped]
    split <;> rfl
  fun_induction moreZeros line with
  | case1 =>
    cases parted with
    | nil => rfl
    | @cons c member rest =>
      have zero : c ≠ '0' := ne_of_mem_separators member (by simp [separators])
      have underscore : c ≠ '_' := ne_of_mem_separators member (by simp [separators])
      have digit : ∀ c ∈ separators, ('1' ≤ c && c ≤ '9') = false := by simp [separators]
      rw [List.nil_append, moreZeros_of_other zero (absurd · underscore), digit c member]
      rfl
  | case2 rest reading found ih => simp [moreZeros, ih, found]
  | case3 rest found ih => simp [moreZeros, ih, found, leave]
  | case4 rest reading found ih => simp [moreZeros, ih, found]
  | case5 rest found ih => simp [moreZeros, ih, found, leave]
  | case6 c rest zero grouped nonzero =>
    have grouped : c = '_' → rest.head? ≠ some '0' := by
      intro underscore head
      obtain ⟨more, rfl⟩ := List.head?_eq_some_iff.mp head
      exact grouped more underscore rfl
    rw [other zero grouped, moreZeros_of_other zero grouped, if_pos nonzero]
  | case7 c rest zero grouped nonzero =>
    have grouped : c = '_' → rest.head? ≠ some '0' := by
      intro underscore head
      obtain ⟨more, rfl⟩ := List.head?_eq_some_iff.mp head
      exact grouped more underscore rfl
    rw [other zero grouped, moreZeros_of_other zero grouped, if_neg nonzero]

theorem stopped_decNumber : Stopped decNumber := by
  intro front after parted
  cases front with
  | nil =>
    cases parted with
    | nil => rfl
    | @cons c member =>
      have zero : c ≠ '0' := ne_of_mem_separators member (by simp [separators])
      simp [decNumber, zero, stops_isDigit c member]
  | cons c rest =>
    simp only [List.cons_append, decNumber, moreZeros_append parted,
      moreDigits_append stops_isDigit parted]
    split
    · simp [Function.comp_def]
    · split <;> rfl

/-- Whether none of the texts has a separator in it. -/
def Plain (allowed : List Text) : Prop :=
  ∀ letters ∈ allowed, ∀ c ∈ letters, c ∉ separators

instance (allowed : List Text) : Decidable (Plain allowed) :=
  decidable_of_iff ((allowed.all fun letters => letters.all (!separators.contains ·)) = true)
    (by simp [Plain])

theorem stops_isQuote : Stops isQuote := by decide

theorem ne_of_isQuote {quote : Char} (quoted : isQuote quote = true) (other : isQuote c = false) :
    c ≠ quote := by
  rintro rfl
  exact absurd quoted (by simp [other])

/-- The letters in front of a string are told by what comes before a separator, unless there
is nothing else. -/
theorem mark_append {allowed : List Text} (plain : Plain allowed) (parted : Parted after)
    (line : Text) :
    mark allowed (line ++ after) = (mark allowed line).map (leave after) ∨
      mark allowed (line ++ after) = none ∧
        ∀ letters rest, mark allowed line = some (letters, rest) → rest = [] := by
  have lower : ∀ c ∈ separators, c.toLower = c := by simp [separators]
  have refused {t : Text} {c : Char} (inside : c ∈ (t.take 2).takeWhile (!isQuote ·))
      (member : c ∈ separators) : mark allowed t = none := by
    apply if_neg
    intro found
    rw [List.contains_iff_mem] at found
    have mapped := List.mem_map_of_mem (f := Char.toLower) inside
    rw [lower c member] at mapped
    exact plain _ found c mapped member
  match line with
  | [] =>
    cases parted with
    | nil => exact .inl (by simp)
    | @cons c member =>
      exact .inr ⟨refused (by simp [stops_isQuote c member]) member, by simp [mark]⟩
  | [c] =>
    by_cases quote : isQuote c = true
    · left
      cases parted <;> simp [mark, quote, leave]
    · cases parted with
      | nil => exact .inl (by simp)
      | @cons d member =>
        exact .inr ⟨refused (by simp [stops_isQuote d member, quote]) member, by simp [mark, quote]⟩
  | c :: d :: rest =>
    left
    have short : ([c, d].takeWhile (!isQuote ·)).length ≤ (c :: d :: rest).length := by
      have := (List.takeWhile_prefix (!isQuote ·) (l := [c, d])).length_le
      simp only [List.length_cons, List.length_nil] at this ⊢
      omega
    have drop := @List.drop_append_of_le_length _ _ after _ short
    unfold mark
    dsimp only [List.cons_append, List.take_succ_cons, List.take_zero] at drop ⊢
    rw [drop]
    split <;> rfl

theorem untilQuote_append {quote : Char} (isQuote : isQuote quote = true)
    (inside : '\n' ∉ line) (ends : Ends after) :
    untilQuote quote (line ++ after) = (untilQuote quote line).map (leave after) := by
  have feed : '\n' ≠ quote := ne_of_isQuote isQuote rfl
  have return_ : '\r' ≠ quote := ne_of_isQuote isQuote rfl
  have escape : '\\' ≠ quote := ne_of_isQuote isQuote rfl
  have broken (rest : Text) : untilQuote quote ('\n' :: rest) = none := by
    rw [untilQuote.eq_def]
    simp [feed]
  fun_induction untilQuote quote line with
  | case1 =>
    cases ends with
    | nil => rfl
    | feed => exact broken _
    | feedAfterReturn =>
      rw [List.nil_append, untilQuote.eq_def]
      simp [return_, broken]
  | case2 rest =>
    rw [List.cons_append, untilQuote.eq_def]
    simp [leave]
  | case3 rest => simp at inside
  | case4 =>
    rw [List.cons_append, untilQuote.eq_def]
    cases ends <;> simp [escape, broken]
  | case5 => simp at inside
  | case6 d rest other _ _ ih =>
    simp only [List.mem_cons, not_or] at inside
    rw [List.cons_append, List.cons_append, untilQuote.eq_def]
    simp [escape, other, ih inside.2.2, Function.comp_def]
  | case7 c rest open_ other unescaped ih =>
    simp only [List.mem_cons, not_or] at inside
    rw [List.cons_append, untilQuote.eq_def]
    simp [open_, other, unescaped, ih inside.2, Function.comp_def]

theorem isPrefixOf_quotes (parted : Parted after) {quote : Char}
    (isQuote : isQuote quote = true) (line : Text) :
    [quote, quote].isPrefixOf (line ++ after) = [quote, quote].isPrefixOf line := by
  refine isPrefixOf_append (fun c member => ?_) parted line
  obtain rfl : c = quote := by simpa using member
  exact fun separator => ne_of_isQuote isQuote (stops_isQuote c separator) rfl

private theorem isQuote_of_parted (parted : Parted after) (head : after.head? = some c) :
    isQuote c = false :=
  stops_isQuote c (parted.head c head)

theorem string_append (parted : Parted after) (line : Text) :
    string (line ++ after) =
      match mark marks line with
      | some (letters, quote :: body) =>
        if isQuote quote && !([quote, quote].isPrefixOf body) then
          (untilQuote quote (body ++ after)).map (append letters ∘ cons quote)
        else none
      | _ => none := by
  rcases @mark_append _ marks (by decide) parted line with same | ⟨unmarked, alone⟩
  · rw [string, same]
    rcases mark marks line with _ | ⟨letters, _ | ⟨quote, body⟩⟩
    · rfl
    · cases after with
      | nil => rfl
      | cons c rest => simp [leave, isQuote_of_parted parted rfl]
    · by_cases isQuote : isQuote quote = true
      · simp [leave, isPrefixOf_quotes parted isQuote body]
      · simp [leave, isQuote]
  · have unread : string (line ++ after) = none := by rw [string, unmarked]
    rw [unread]
    split
    · next found => cases alone _ _ found
    · rfl

theorem within_string : Within string := by
  intro line after inside ends
  have whole := string_append .nil line
  rw [List.append_nil] at whole
  rw [string_append ends.parted, whole]
  rcases marked : mark marks line with _ | ⟨letters, _ | ⟨quote, body⟩⟩
  · rfl
  · rfl
  · have within : '\n' ∉ body := by
      intro member
      apply inside
      rw [← splits_mark marked]
      simp [member]
    by_cases isQuote : isQuote quote = true
    · simp only [untilQuote_append isQuote within ends, List.append_nil]
      split <;> simp [Function.comp_def]
    · simp [isQuote]

/-- The letters and the quotes in front of a long string are told by what comes before a
separator. -/
theorem longString_append (parted : Parted after) (line : Text) :
    longString (line ++ after) =
      match mark longMarks line with
      | some (letters, quote :: body) =>
        if isQuote quote && [quote, quote].isPrefixOf body then
          (untilTripleQuote quote (body.drop 2 ++ after)).map
            (append (letters ++ [quote, quote, quote]))
        else none
      | _ => none := by
  rcases @mark_append _ longMarks (by decide) parted line with same | ⟨unmarked, alone⟩
  · rw [longString, same]
    rcases mark longMarks line with _ | ⟨letters, _ | ⟨quote, body⟩⟩
    · rfl
    · cases after with
      | nil => rfl
      | cons c rest => simp [leave, isQuote_of_parted parted rfl]
    · by_cases isQuote : isQuote quote = true
      · have quotes := isPrefixOf_quotes parted isQuote body
        simp only [Option.map_some, leave, List.cons_append, quotes]
        split
        · next opens =>
          obtain ⟨more, rfl⟩ : [quote, quote] <+: body := by simpa [isQuote] using opens
          rfl
        · rfl
      · simp [leave, isQuote]
  · have unread : longString (line ++ after) = none := by rw [longString, unmarked]
    rw [unread]
    split
    · next found => cases alone _ _ found
    · rfl

end VyperFront.Lexeme
