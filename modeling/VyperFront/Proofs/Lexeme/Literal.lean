import VyperFront.Grammar.NodeKind
import VyperFront.Lexer

namespace VyperFront.Lexeme

/-- Digits with single underscores between them. -/
inductive Grouped (known : List Char) : Text → Prop where
  | one (digit : c ∈ known) : Grouped known [c]
  | next (digit : c ∈ known) (rest : Grouped known t) : Grouped known (c :: t)
  | parted (digit : c ∈ known) (rest : Grouped known t) : Grouped known (c :: '_' :: t)

abbrev Decimal (t : Text) : Prop := Grouped "0123456789".toList t

/-- A letter for powers of ten, perhaps a sign, and digits. -/
inductive Exponent : Text → Prop where
  | plain (letter : e = 'e' ∨ e = 'E') (power : Decimal t) : Exponent (e :: t)
  | signed (letter : e = 'e' ∨ e = 'E') (sign : s = '+' ∨ s = '-') (power : Decimal t) :
    Exponent (e :: s :: t)

/-- The letters of the other bases, with their digits. -/
def bases : List (List Char × List Char) :=
  [(['x', 'X'], "0123456789abcdefABCDEF".toList), (['o', 'O'], "01234567".toList),
   (['b', 'B'], "01".toList)]

/-- The forms of numbers, with what they are in a tree. -/
inductive Numeral : NodeKind → Text → Prop where
  | nonzero (first : c ≠ '0') (grouped : Decimal (c :: t)) : Numeral .integer (c :: t)
  | zeros (grouped : Grouped ['0'] t) : Numeral .integer t
  | based (base : (letters, known) ∈ bases) (letter : c ∈ letters) (rest : Grouped known t) :
    Numeral .integer ('0' :: c :: t)
  | basedParted (base : (letters, known) ∈ bases) (letter : c ∈ letters)
      (rest : Grouped known t) : Numeral .integer ('0' :: c :: '_' :: t)
  | scaled (whole : Decimal w) (power : Exponent e) : Numeral .decimal (w ++ e)
  | pointFirst (fraction : Decimal d) (power : e = [] ∨ Exponent e) :
    Numeral .decimal ('.' :: d ++ e)
  | pointLast (whole : Decimal w) (power : e = [] ∨ Exponent e) : Numeral .decimal (w ++ '.' :: e)
  | pointBetween (whole : Decimal w) (fraction : Decimal d) (power : e = [] ∨ Exponent e) :
    Numeral .decimal (w ++ '.' :: d ++ e)

/-- What may stand in front of a string, in lower case: one of the letters, an `r`, or both. -/
inductive Mark (letters : List Char) : Text → Prop where
  | none : Mark letters []
  | letter (listed : c ∈ letters) : Mark letters [c]
  | raw : Mark letters ['r']
  | letterRaw (listed : c ∈ letters) : Mark letters [c, 'r']
  | rawLetter (listed : c ∈ ['u', 'b', 'f']) : Mark letters ['r', c]

/-- The forms of strings. A body within one line is free of the quote, one between triple quotes is
free of three of them in a row and does not end with one. -/
inductive Quotation : Text → Prop where
  | short {letters body : Text} {quote : Char}
      (mark : Mark ['u', 'b', 'f', 'x'] (letters.map Char.toLower))
      (quoted : quote = '"' ∨ quote = '\'')
      (inside : ∀ c ∈ body, c ≠ quote ∧ c ≠ '\\' ∧ c ≠ '\n') :
    Quotation (letters ++ quote :: body ++ [quote])
  | long {letters body : Text} {quote : Char}
      (mark : Mark ['u', 'b', 'f'] (letters.map Char.toLower))
      (quoted : quote = '"' ∨ quote = '\'') (plain : '\\' ∉ body)
      (apart : ¬ [quote, quote, quote] <:+: body) (last : body.getLast? ≠ some quote) :
    Quotation (letters ++ [quote, quote, quote] ++ body ++ [quote, quote, quote])

/-- The forms of literals, with what they are in a tree. -/
inductive LiteralForm : NodeKind → Text → Prop where
  | number (numeral : Numeral kind t) : LiteralForm kind t
  | string (quotation : Quotation t) : LiteralForm .string t

/-- Whether one class of numbers or strings reads the whole text, to be a leaf of the kind. -/
def ReadWhole (kind : NodeKind) (t : Text) : Prop :=
  ∃ k r, (k, r) ∈ Lexer.numbersAndStrings ∧ k ≠ .newline ∧ NodeKind.ofTerminal? k = some kind ∧
    r t = some (t, [])

variable {t rest w d e letters body : Text} {quote c : Char} {known : List Char}
  {isDigit : Char → Bool}

theorem Grouped.exists_head (grouped : Grouped known t) : ∃ c more, t = c :: more ∧ c ∈ known := by
  cases grouped with
  | one digit => exact ⟨_, _, rfl, digit⟩
  | next digit _ => exact ⟨_, _, rfl, digit⟩
  | parted digit _ => exact ⟨_, _, rfl, digit⟩

theorem moreDigits_cons (digit : isDigit c = true) (t : Text) :
    moreDigits isDigit (c :: t) = cons c (moreDigits isDigit t) := by
  rw [moreDigits.eq_def]
  simp only [if_pos digit]

theorem moreDigits_parted (part : isDigit '_' = false) (digit : isDigit c = true) (t : Text) :
    moreDigits isDigit ('_' :: c :: t) = cons '_' (moreDigits isDigit (c :: t)) := by
  rw [moreDigits_cons digit, moreDigits.eq_def]
  simp [part, digit]

theorem Grouped.moreDigits_eq (grouped : Grouped known t)
    (digit : ∀ c ∈ known, isDigit c = true) (part : isDigit '_' = false)
    (stops : moreDigits isDigit rest = ([], rest)) :
    moreDigits isDigit (t ++ rest) = (t, rest) := by
  induction grouped with
  | one listed =>
    rw [List.singleton_append, moreDigits_cons (digit _ listed), stops]
    rfl
  | next listed _ ih =>
    rw [List.cons_append, moreDigits_cons (digit _ listed), ih]
    rfl
  | parted listed rest ih =>
    obtain ⟨d, more, rfl, next⟩ := rest.exists_head
    rw [List.cons_append, List.cons_append, moreDigits_cons (digit _ listed), List.cons_append,
      moreDigits_parted part (digit d next), ← List.cons_append, ih]
    rfl

theorem Decimal.digits_eq (decimal : Decimal t)
    (stops : moreDigits Char.isDigit rest = ([], rest)) :
    digits Char.isDigit (t ++ rest) = some (t, rest) := by
  have digit : ∀ c ∈ "0123456789".toList, c.isDigit = true := by simp
  have read := decimal.moreDigits_eq digit rfl stops
  obtain ⟨c, more, rfl, listed⟩ := decimal.exists_head
  rw [List.cons_append, moreDigits_cons (digit c listed)] at read
  rw [List.cons_append, digits, if_pos (digit c listed), read]

theorem Decimal.digits_whole (decimal : Decimal t) : digits Char.isDigit t = some (t, []) := by
  have nil : moreDigits Char.isDigit [] = ([], []) := rfl
  simpa using decimal.digits_eq nil

theorem Exponent.exponent_eq (written : Exponent e) : exponent e = some (e, []) := by
  cases written with
  | @plain letter t isLetter power =>
    have read := power.digits_whole
    obtain ⟨c, more, rfl, listed⟩ := power.exists_head
    have noSign : ¬ (c = '+' ∨ c = '-') := by
      rintro (rfl | rfl) <;> exact absurd listed (by decide)
    simp [exponent, isLetter, noSign, read, cons]
  | @signed letter sign t isLetter isSign power =>
    have read := power.digits_whole
    simp [exponent, isLetter, isSign, read, cons]

/-- The letter of an exponent goes on no digits, and is no point. -/
theorem Exponent.stops (written : Exponent e) :
    moreDigits Char.isDigit e = ([], e) ∧ digits Char.isDigit e = none ∧ e.head? ≠ some '.' := by
  have stop {letter : Char} (isLetter : letter = 'e' ∨ letter = 'E') (t : Text) :
      moreDigits Char.isDigit (letter :: t) = ([], letter :: t) ∧
        digits Char.isDigit (letter :: t) = none ∧ (letter :: t).head? ≠ some '.' := by
    rcases isLetter with rfl | rfl <;> simp [moreDigits.eq_def, digits]
  cases written with
  | plain isLetter _ => exact stop isLetter _
  | signed isLetter _ _ => exact stop isLetter _

theorem withExponent_eq (power : e = [] ∨ Exponent e) :
    withExponent (w, e) = (w ++ e, []) ∧ moreDigits Char.isDigit e = ([], e) ∧
      digits Char.isDigit e = none := by
  rcases power with rfl | written
  · exact ⟨by simp [withExponent, exponent], rfl, rfl⟩
  · obtain ⟨stops, none, _⟩ := written.stops
    exact ⟨by simp [withExponent, written.exponent_eq, append], stops, none⟩

theorem floatNumber_scaled (whole : Decimal w) (power : Exponent e) :
    floatNumber (w ++ e) = some (w ++ e, []) := by
  obtain ⟨stops, _, point⟩ := power.stops
  unfold floatNumber
  rw [whole.digits_eq stops]
  split
  · next rest same =>
    obtain ⟨_, rfl⟩ := Prod.mk.inj (Option.some.inj same)
    exact absurd rfl point
  · next same =>
    obtain ⟨rfl, rfl⟩ := Prod.mk.inj (Option.some.inj same)
    rw [power.exponent_eq]
    rfl
  · next none => cases none

theorem floatNumber_pointFirst (fraction : Decimal d) (power : e = [] ∨ Exponent e) :
    floatNumber ('.' :: d ++ e) = some ('.' :: d ++ e, []) := by
  obtain ⟨ends, stops, _⟩ := withExponent_eq (w := '.' :: d) power
  have none : digits Char.isDigit ('.' :: (d ++ e)) = none := rfl
  rw [List.cons_append, floatNumber, none]
  simp only [fraction.digits_eq stops, Option.map_some]
  exact congrArg some ends

theorem floatNumber_pointLast (whole : Decimal w) (power : e = [] ∨ Exponent e) :
    floatNumber (w ++ '.' :: e) = some (w ++ '.' :: e, []) := by
  obtain ⟨ends, _, none⟩ := withExponent_eq (w := w ++ ['.']) power
  have stops : moreDigits Char.isDigit ('.' :: e) = ([], '.' :: e) := by
    simp [moreDigits.eq_def]
  unfold floatNumber
  rw [whole.digits_eq stops]
  simp only [none]
  rw [ends, List.append_assoc]
  rfl

theorem floatNumber_pointBetween (whole : Decimal w) (fraction : Decimal d)
    (power : e = [] ∨ Exponent e) :
    floatNumber (w ++ '.' :: d ++ e) = some (w ++ '.' :: d ++ e, []) := by
  obtain ⟨ends, stops, _⟩ := withExponent_eq (w := w ++ '.' :: d) power
  have point : moreDigits Char.isDigit ('.' :: (d ++ e)) = ([], '.' :: (d ++ e)) := by
    simp [moreDigits.eq_def]
  rw [List.append_assoc, List.cons_append]
  unfold floatNumber
  rw [whole.digits_eq point]
  simp only [fraction.digits_eq stops]
  rw [List.append_assoc, List.cons_append] at ends
  exact congrArg some ends

theorem moreZeros_eq (zeros : Grouped ['0'] t) :
    moreZeros t = some (t, []) ∧ moreZeros ('_' :: t) = some ('_' :: t, []) := by
  have start (c : Char) (listed : c ∈ ['0']) {t : Text} (read : moreZeros t = some (t, [])) :
      moreZeros (c :: t) = some (c :: t, []) ∧
        moreZeros ('_' :: c :: t) = some ('_' :: c :: t, []) := by
    obtain rfl := List.mem_singleton.mp listed
    simp [moreZeros, read, cons]
  induction zeros with
  | one digit => exact start _ digit rfl
  | next digit _ ih => exact start _ digit ih.1
  | parted digit _ ih => exact start _ digit ih.2

theorem decNumber_zeros (zeros : Grouped ['0'] t) : decNumber t = some (t, []) := by
  have start (c : Char) (listed : c ∈ ['0']) {t : Text} (read : moreZeros t = some (t, [])) :
      decNumber (c :: t) = some (c :: t, []) := by
    rw [decNumber, if_pos (List.mem_singleton.mp listed), read]
    rfl
  cases zeros with
  | one digit => exact start _ digit rfl
  | next digit rest => exact start _ digit (moreZeros_eq rest).1
  | parted digit rest => exact start _ digit (moreZeros_eq rest).2

theorem decNumber_nonzero (first : c ≠ '0') (grouped : Decimal (c :: t)) :
    decNumber (c :: t) = some (c :: t, []) := by
  have read := grouped.digits_whole
  rw [digits] at read
  rw [decNumber, if_neg first]
  exact read

theorem based_eq {letters : List Char} (letter : c ∈ letters) (grouped : Grouped known t)
    (digit : ∀ c ∈ known, isDigit c = true) (part : isDigit '_' = false) :
    based letters isDigit ('0' :: c :: t) = some ('0' :: c :: t, []) ∧
      based letters isDigit ('0' :: c :: '_' :: t) = some ('0' :: c :: '_' :: t, []) := by
  have nil : moreDigits isDigit [] = ([], []) := rfl
  have read := grouped.moreDigits_eq digit part nil
  obtain ⟨d, more, rfl, listed⟩ := grouped.exists_head
  rw [List.append_nil] at read
  have parted := moreDigits_parted part (digit d listed) more
  rw [read] at parted
  have letter := List.contains_iff_mem.mpr letter
  simp only [based, letter, if_true, read, parted, cons]
  trivial

theorem exists_class_of_base {letters : List Char} (base : (letters, known) ∈ bases) :
    ∃ k isDigit, (k, based letters isDigit) ∈ Lexer.numbersAndStrings ∧ k ≠ .newline ∧
      NodeKind.ofTerminal? k = some .integer ∧ (∀ c ∈ known, isDigit c = true) ∧
      isDigit '_' = false := by
  simp only [bases, List.mem_cons, Prod.mk.injEq, List.not_mem_nil, or_false] at base
  rcases base with ⟨rfl, rfl⟩ | ⟨rfl, rfl⟩ | ⟨rfl, rfl⟩
  · exact ⟨.hexNumber, isHexDigit, by simp [Lexer.numbersAndStrings, hexNumber], nofun, rfl,
      by simp [isHexDigit], rfl⟩
  · exact ⟨.octNumber, fun c => '0' ≤ c && c ≤ '7', by simp [Lexer.numbersAndStrings, octNumber],
      nofun, rfl, by simp, rfl⟩
  · exact ⟨.binNumber, fun c => c = '0' || c = '1', by simp [Lexer.numbersAndStrings, binNumber],
      nofun, rfl, by simp, rfl⟩

/-- What is written in one of the forms of numbers is read whole by one class. -/
theorem Numeral.readWhole {kind : NodeKind} (numeral : Numeral kind t) : ReadWhole kind t := by
  have ten {t : Text} (read : decNumber t = some (t, [])) : ReadWhole .integer t :=
    ⟨.decNumber, decNumber, by simp [Lexer.numbersAndStrings], nofun, rfl, read⟩
  have float {t : Text} (read : floatNumber t = some (t, [])) : ReadWhole .decimal t :=
    ⟨.floatNumber, floatNumber, by simp [Lexer.numbersAndStrings], nofun, rfl, read⟩
  cases numeral with
  | nonzero first grouped => exact ten (decNumber_nonzero first grouped)
  | zeros grouped => exact ten (decNumber_zeros grouped)
  | based base letter rest =>
    obtain ⟨k, isDigit, listed, solid, named, digit, part⟩ := exists_class_of_base base
    exact ⟨k, _, listed, solid, named, (based_eq letter rest digit part).1⟩
  | basedParted base letter rest =>
    obtain ⟨k, isDigit, listed, solid, named, digit, part⟩ := exists_class_of_base base
    exact ⟨k, _, listed, solid, named, (based_eq letter rest digit part).2⟩
  | scaled whole power => exact float (floatNumber_scaled whole power)
  | pointFirst fraction power => exact float (floatNumber_pointFirst fraction power)
  | pointLast whole power => exact float (floatNumber_pointLast whole power)
  | pointBetween whole fraction power => exact float (floatNumber_pointBetween whole fraction power)

theorem isQuote_of_eq (quoted : quote = '"' ∨ quote = '\'') : isQuote quote = true := by
  rcases quoted with rfl | rfl <;> rfl

theorem mark_eq {allowed : List Text} (listed : letters.map Char.toLower ∈ allowed)
    (short : letters.length ≤ 2) (plain : ∀ c ∈ letters, isQuote c = false)
    (quoted : isQuote quote = true) (body : Text) :
    mark allowed (letters ++ quote :: body) = some (letters, quote :: body) := by
  have front : ((letters ++ quote :: body).take 2).takeWhile (!isQuote ·) = letters := by
    match letters, short, plain with
    | [], _, _ => simp [quoted]
    | [a], _, plain => simp_all
    | [a, b], _, plain => simp_all
  simp [mark, front, listed]

theorem Mark.plain {allowed : List Char} (marked : Mark allowed (letters.map Char.toLower))
    (known : ∀ c ∈ allowed, c ∈ ['u', 'b', 'f', 'x', 'r']) :
    letters.length ≤ 2 ∧ ∀ c ∈ letters, isQuote c = false := by
  have lower : (letters.map Char.toLower).length ≤ 2 ∧
      ∀ c ∈ letters.map Char.toLower, c ∈ ['u', 'b', 'f', 'x', 'r'] := by
    generalize letters.map Char.toLower = t at marked
    have others : ∀ c ∈ ['u', 'b', 'f'], c ∈ ['u', 'b', 'f', 'x', 'r'] := by simp
    cases marked with
    | none => simp
    | letter listed => simpa using known _ listed
    | raw => simp
    | letterRaw listed => simpa using known _ listed
    | rawLetter listed => simpa using others _ listed
  refine ⟨by simpa using lower.1, fun c member => ?_⟩
  have listed := lower.2 _ (List.mem_map_of_mem member)
  refine Bool.eq_false_iff.mpr fun quoted => ?_
  have quoted : c = '"' ∨ c = '\'' := by simpa [isQuote] using quoted
  rcases quoted with rfl | rfl <;> exact absurd listed (by decide)

theorem Mark.mem_marks (marked : Mark ['u', 'b', 'f', 'x'] t) : t ∈ marks := by
  have letters : ∀ c ∈ ['u', 'b', 'f', 'x'], [c] ∈ marks ∧ [c, 'r'] ∈ marks := by
    simp [marks, longMarks]
  have others : ∀ c ∈ ['u', 'b', 'f'], ['r', c] ∈ marks := by simp [marks, longMarks]
  cases marked with
  | none => decide
  | letter listed => exact (letters _ listed).1
  | raw => decide
  | letterRaw listed => exact (letters _ listed).2
  | rawLetter listed => exact others _ listed

theorem Mark.mem_longMarks (marked : Mark ['u', 'b', 'f'] t) : t ∈ longMarks := by
  have letters : ∀ c ∈ ['u', 'b', 'f'],
      [c] ∈ longMarks ∧ [c, 'r'] ∈ longMarks ∧ ['r', c] ∈ longMarks := by
    simp [longMarks]
  cases marked with
  | none => decide
  | letter listed => exact (letters _ listed).1
  | raw => decide
  | letterRaw listed => exact (letters _ listed).2.1
  | rawLetter listed => exact (letters _ listed).2.2

theorem untilQuote_eq (inside : ∀ c ∈ body, c ≠ quote ∧ c ≠ '\\' ∧ c ≠ '\n') :
    untilQuote quote (body ++ [quote]) = some (body ++ [quote], []) := by
  induction body with
  | nil => simp [untilQuote]
  | cons c rest ih =>
    obtain ⟨⟨other, plain, line⟩, later⟩ := List.forall_mem_cons.mp inside
    rw [List.cons_append, untilQuote.eq_def]
    simp only [if_neg other, if_neg line, if_neg plain, ih later]
    rfl

/-- Within a body, three quotes do not come in a row before the ones that close it. -/
private theorem not_closed (apart : ¬ [quote, quote, quote] <:+: c :: body)
    (last : (c :: body).getLast? ≠ some quote) :
    ¬ (c = quote ∧ [quote, quote] <+: body ++ [quote, quote, quote]) := by
  rintro ⟨rfl, twice⟩
  match body with
  | [] => exact last rfl
  | [d] =>
    obtain ⟨rfl, _⟩ := List.cons_prefix_cons.mp twice
    exact last rfl
  | d :: e :: rest =>
    obtain ⟨rfl, once⟩ := List.cons_prefix_cons.mp twice
    obtain ⟨rfl, _⟩ := List.cons_prefix_cons.mp once
    exact apart ⟨[], rest, rfl⟩

theorem untilTripleQuote_eq (plain : '\\' ∉ body) (apart : ¬ [quote, quote, quote] <:+: body)
    (last : body.getLast? ≠ some quote) :
    untilTripleQuote quote (body ++ [quote, quote, quote]) =
      some (body ++ [quote, quote, quote], []) := by
  induction body with
  | nil => simp [untilTripleQuote]
  | cons c rest ih =>
    obtain ⟨other, plain⟩ := List.ne_and_not_mem_of_not_mem_cons plain
    have ends : rest.getLast? ≠ some quote :=
      fun ends => last (by rw [List.getLast?_cons, ends]; rfl)
    have later := ih plain (fun inside => apart (List.infix_cons inside)) ends
    have opened : (decide (c = quote) &&
        [quote, quote].isPrefixOf (rest ++ [quote, quote, quote])) = false := by
      refine Bool.eq_false_iff.mpr fun closes => not_closed apart last ?_
      rwa [Bool.and_eq_true, decide_eq_true_eq, List.isPrefixOf_iff_prefix] at closes
    rw [List.cons_append, untilTripleQuote.eq_def]
    simp only [opened, Bool.false_eq_true, if_false, if_neg other.symm, later]
    rfl

/-- What is written in one of the forms of strings is read whole by one class. -/
theorem Quotation.readWhole (quotation : Quotation t) : ReadWhole .string t := by
  cases quotation with
  | @short letters body quote marked quoted inside =>
    obtain ⟨short, plain⟩ := marked.plain (by simp)
    have isQuote := isQuote_of_eq quoted
    have single : [quote, quote].isPrefixOf (body ++ [quote]) = false := by
      cases body with
      | nil => simp
      | cons c rest =>
        refine Bool.eq_false_iff.mpr fun opens => (inside c List.mem_cons_self).1 ?_
        exact (List.cons_prefix_cons.mp (List.isPrefixOf_iff_prefix.mp opens)).1.symm
    have read : string (letters ++ quote :: (body ++ [quote])) =
        some (letters ++ quote :: (body ++ [quote]), []) := by
      rw [string, mark_eq marked.mem_marks short plain isQuote]
      simp [isQuote, single, untilQuote_eq inside, cons, append]
    exact ⟨.string, string, by simp [Lexer.numbersAndStrings], nofun, rfl, by simpa using read⟩
  | @long letters body quote marked quoted noSlash apart last =>
    obtain ⟨short, plain⟩ := marked.plain (by simp)
    have isQuote := isQuote_of_eq quoted
    have read : longString (letters ++ quote :: quote :: quote :: (body ++ [quote, quote, quote])) =
        some (letters ++ quote :: quote :: quote :: (body ++ [quote, quote, quote]), []) := by
      rw [longString, mark_eq marked.mem_longMarks short plain isQuote]
      simp [isQuote, untilTripleQuote_eq noSlash apart last, append]
    exact ⟨.longString, longString, by simp [Lexer.numbersAndStrings], nofun, rfl,
      by simpa using read⟩

theorem LiteralForm.readWhole {kind : NodeKind} (form : LiteralForm kind t) :
    ReadWhole kind t := by
  cases form with
  | number numeral => exact numeral.readWhole
  | string quotation => exact quotation.readWhole

end VyperFront.Lexeme
