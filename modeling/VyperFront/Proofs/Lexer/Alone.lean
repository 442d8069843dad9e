import VyperFront.Proofs.Lexer.Parted

namespace VyperFront

/-- Whether the token is what its text is read as when it stands alone. -/
def Token.Legible (t : SourceToken) : Prop :=
  t.kind ≠ .newline ∧ Lexer.piece .spelled t.text = .token t.kind t.text []

namespace Lexer

open Lexeme

variable {wanted : TerminalSet} {t after letters body text rest : Text} {quote c : Char}
  {kind : Terminal} {token : SourceToken} {r : Recognizer}

theorem not_opened_of_whole (found : piece wanted t = .token kind t []) :
    ¬ Opened t letters quote body := by
  intro opened
  rcases piece_of_opened opened wanted with none | ⟨_, k, name⟩
  · rw [none] at found
    cases found
  · rw [name] at found
    cases found

theorem exists_head_of_legible (legible : token.Legible) :
    ∃ c more, token.text = c :: more ∧ c ∉ inert := by
  obtain ⟨solid, read⟩ := legible
  have front := frontOf_piece .spelled token.text
  rw [read] at front
  obtain ⟨c, more, same⟩ := List.exists_cons_of_ne_nil front.2.1
  refine ⟨c, more, same, fun member => ?_⟩
  rw [same, piece_of_inert member] at read
  split at read
  · exact solid (Piece.token.inj read).1.symm
  · split at read <;> cases read

/-- Before a separator the token is read as it is alone. -/
theorem piece_of_legible (legible : token.Legible) (parted : Parted after) :
    piece .spelled (token.text ++ after) = .token token.kind token.text after := by
  obtain ⟨c, more, same, head⟩ := exists_head_of_legible legible
  have read := legible.2
  rw [same] at read ⊢
  have closed (letters : Text) (quote : Char) (body : Text) :
      ¬ Opened (c :: more ++ []) letters quote body := by
    rw [List.append_nil]
    exact not_opened_of_whole read
  exact piece_of_closed .nil parted head closed (w := []) (by simpa using read)

private theorem cons_eq_iff {reading : Text × Text} :
    cons c reading = (c :: t, rest) ↔ reading = (t, rest) := by
  simp [cons, Prod.ext_iff]

private theorem moreDigits_of_moreZeros (found : moreZeros t = some (t, [])) :
    moreDigits Char.isDigit t = (t, []) := by
  fun_induction moreZeros t with
  | case1 => rfl
  | case2 rest reading more ih =>
    obtain rfl := cons_eq_iff.mp (Option.some.inj found)
    rw [moreDigits.eq_def]
    simp [ih more, cons]
  | case4 rest reading more ih =>
    obtain rfl := cons_eq_iff.mp (cons_eq_iff.mp (Option.some.inj found))
    rw [moreDigits.eq_def]
    simp [ih more, cons]
  | case3 => cases found
  | case5 => cases found
  | case6 => cases found
  | case7 => cases found

private theorem floatNumber_of_digits (whole : digits Char.isDigit text = some (text, [])) :
    floatNumber text = none := by
  simp [floatNumber, whole, exponent]

private theorem unread_of_decNumber (whole : decNumber text = some (text, [])) :
    floatNumber text = none ∧ hexNumber text = none ∧ binNumber text = none ∧
      octNumber text = none := by
  cases text with
  | nil => cases whole
  | cons c rest =>
    rw [decNumber] at whole
    split at whole
    · next zero =>
      subst zero
      obtain ⟨reading, more, same⟩ := Option.map_eq_some_iff.mp whole
      obtain rfl := cons_eq_iff.mp same
      have digits : digits Char.isDigit ('0' :: rest) = some ('0' :: rest, []) := by
        simp [Lexeme.digits, moreDigits_of_moreZeros more, cons]
      refine ⟨floatNumber_of_digits digits, ?_⟩
      cases rest with
      | nil => exact ⟨rfl, rfl, rfl⟩
      | cons d rest =>
        have zeros : d = '0' ∨ d = '_' := by
          unfold moreZeros at more
          split at more <;> simp_all
        rcases zeros with rfl | rfl <;> simp [hexNumber, binNumber, octNumber, based]
    · next nonzero =>
      split at whole
      · next digit =>
        have more := cons_eq_iff.mp (Option.some.inj whole)
        have digits : digits Char.isDigit (c :: rest) = some (c :: rest, []) := by
          simp [Lexeme.digits, digit, more, cons]
        refine ⟨floatNumber_of_digits digits, ?_⟩
        simp [hexNumber, binNumber, octNumber, based, nonzero]
      · cases whole

private theorem exists_of_based {letters : List Char} {isDigit : Char → Bool}
    (found : based letters isDigit text = some (t, rest)) :
    ∃ letter more, text = '0' :: letter :: more ∧ letter ∈ letters := by
  unfold based at found
  split at found
  · next letter more =>
    split at found
    · next listed => exact ⟨letter, more, rfl, List.contains_iff_mem.mp listed⟩
    · cases found
  · cases found

private theorem unread_of_letter (letter : c ∈ ['x', 'X', 'b', 'B', 'o', 'O']) (more : Text) :
    floatNumber ('0' :: c :: more) = none ∧
      (c ∉ ['x', 'X'] → hexNumber ('0' :: c :: more) = none) ∧
      (c ∉ ['b', 'B'] → binNumber ('0' :: c :: more) = none) := by
  refine ⟨?_, fun other => ?_, fun other => ?_⟩
  · have apart : ∀ c ∈ ['x', 'X', 'b', 'B', 'o', 'O'],
        c.isDigit = false ∧ c ≠ '_' ∧ c ≠ '.' ∧ c ≠ 'e' ∧ c ≠ 'E' := forall_mem_of_all (by decide)
    obtain ⟨digit, underscore, point, lower, upper⟩ := apart c letter
    have stops : moreDigits Char.isDigit (c :: more) = ([], c :: more) := by
      rw [moreDigits.eq_def]
      simp [digit, underscore]
    simp [floatNumber, digits, stops, cons, exponent, point, lower, upper]
  · rw [hexNumber, based, if_neg (by simpa using other)]
  · rw [binNumber, based, if_neg (by simpa using other)]

private theorem exists_mark_of_string (found : string text = some (t, rest)) :
    ∃ letters quote body, mark marks text = some (letters, quote :: body) ∧
      isQuote quote = true := by
  unfold string at found
  split at found
  · next letters quote body marked =>
    split at found
    · next short => exact ⟨letters, quote, body, marked, (Bool.and_eq_true_iff.mp short).1⟩
    · cases found
  · cases found

private theorem exists_mark_of_longString (found : longString text = some (t, rest)) :
    string text = none ∧ ∃ letters quote body, mark marks text = some (letters, quote :: body) ∧
      isQuote quote = true := by
  unfold longString at found
  split at found
  · next letters quote body marked =>
    split at found
    · next triple =>
      obtain ⟨isQuote, twice⟩ := Bool.and_eq_true_iff.mp triple
      refine ⟨?_, letters, quote, body, mark_longMarks marked, isQuote⟩
      simp only [string, mark_longMarks marked, twice]
      simp
    · cases found
  · cases found

private theorem no_string (unmarked : ∀ letters quote body, isQuote quote = true →
    mark marks text ≠ some (letters, quote :: body)) :
    string text = none ∧ longString text = none := by
  constructor
  · by_contra found
    obtain ⟨_, found⟩ := Option.ne_none_iff_exists'.mp found
    obtain ⟨_, _, _, marked, isQuote⟩ := exists_mark_of_string found
    exact unmarked _ _ _ isQuote marked
  · by_contra found
    obtain ⟨_, found⟩ := Option.ne_none_iff_exists'.mp found
    obtain ⟨_, _, _, _, marked, isQuote⟩ := exists_mark_of_longString found
    exact unmarked _ _ _ isQuote marked

/-- Where a class reads a whole text, none before it reads any of it. -/
theorem firstOf_of_whole (listed : (kind, r) ∈ numbersAndStrings) (solid : kind ≠ .newline)
    (whole : r text = some (text, [])) :
    firstOf .spelled text numbersAndStrings = some (kind, text, []) := by
  have spelled : ∀ k ∈ [.floatNumber, .hexNumber, .binNumber, .octNumber, .string, .longString,
      .decNumber], TerminalSet.spelled.contains k = true := forall_mem_of_all (by decide)
  simp only [List.forall_mem_cons] at spelled
  simp only [numbersAndStrings, List.mem_cons, Prod.mk.injEq, List.not_mem_nil, or_false] at listed
  simp only [numbersAndStrings, firstOf, spelled, if_true]
  rcases listed with ⟨rfl, rfl⟩ | ⟨rfl, rfl⟩ | ⟨rfl, rfl⟩ | ⟨rfl, rfl⟩ | ⟨rfl, rfl⟩ | ⟨rfl, rfl⟩ |
    ⟨rfl, rfl⟩ | ⟨rfl, rfl⟩
  · rw [whole]
  · obtain ⟨c, more, rfl, member⟩ := exists_of_based whole
    have unread := unread_of_letter (List.mem_append_left ['b', 'B', 'o', 'O'] member) more
    rw [unread.1, whole]
  · obtain ⟨c, more, rfl, member⟩ := exists_of_based whole
    have letter := (forall_mem_of_all (by decide) : ∀ c ∈ ['b', 'B'],
      c ∈ ['x', 'X', 'b', 'B', 'o', 'O'] ∧ c ∉ ['x', 'X']) c member
    have unread := unread_of_letter letter.1 more
    rw [unread.1, unread.2.1 letter.2, whole]
  · obtain ⟨c, more, rfl, member⟩ := exists_of_based whole
    have letter := (forall_mem_of_all (by decide) : ∀ c ∈ ['o', 'O'],
      c ∈ ['x', 'X', 'b', 'B', 'o', 'O'] ∧ c ∉ ['x', 'X'] ∧ c ∉ ['b', 'B']) c member
    have unread := unread_of_letter letter.1 more
    rw [unread.1, unread.2.1 letter.2.1, unread.2.2 letter.2.2, whole]
  · obtain ⟨_, _, _, marked, isQuote⟩ := exists_mark_of_string whole
    obtain ⟨c, more, rfl, begins⟩ := exists_head marked isQuote
    have numbers := no_number (apart_of_head begins).1 (apart_of_head begins).2.1 more
    simp only [numbers, whole]
  · obtain ⟨short, _, _, _, marked, isQuote⟩ := exists_mark_of_longString whole
    obtain ⟨c, more, rfl, begins⟩ := exists_head marked isQuote
    have numbers := no_number (apart_of_head begins).1 (apart_of_head begins).2.1 more
    simp only [numbers, short, whole]
  · obtain ⟨float, hex, bin, oct⟩ := unread_of_decNumber whole
    have strings : string text = none ∧ longString text = none := by
      refine no_string fun letters quote body isQuote marked => ?_
      obtain ⟨c, more, rfl, begins⟩ := exists_head marked isQuote
      have numbers := no_number (apart_of_head begins).1 (apart_of_head begins).2.1 more
      rw [numbers.2.2.2.2] at whole
      cases whole
    simp only [float, hex, bin, oct, strings, whole]
  · exact absurd rfl solid

theorem legible_of_whole {place : Extent} (listed : (kind, r) ∈ numbersAndStrings)
    (solid : kind ≠ .newline) (whole : r text = some (text, [])) :
    Token.Legible ⟨kind, text, place⟩ := by
  refine ⟨solid, ?_⟩
  rw [piece, firstOf_of_whole listed solid whole]

private theorem digit_of_isDigit (digit : c.isDigit = true) : isDecimalDigit c = true := by
  have range : 48 ≤ c.toNat ∧ c.toNat ≤ 57 := by
    simp only [Char.isDigit, Bool.and_eq_true, decide_eq_true_eq] at digit
    exact ⟨digit.1, digit.2⟩
  have ascii : c.toNat < 128 := by omega
  simp only [isDecimalDigit, digitValue?, if_pos ascii, Digit.valueFrom]
  rw [if_neg (by omega), if_pos (by omega)]
  rfl

private theorem exists_head_of_name (named : name text = some (t, rest)) :
    ∃ c more, text = c :: more ∧ isWordChar c = true ∧ isDecimalDigit c = false := by
  unfold name at named
  split at named
  · cases named
  · next c more =>
    split at named
    · next begins =>
      obtain ⟨isWord, other⟩ := Bool.and_eq_true_iff.mp begins
      exact ⟨c, more, rfl, isWord, by simpa using other⟩
    · cases named

/-- A word is read by no class before names, and is not skipped. -/
private theorem unread_of_name (named : name text = some (text, [])) (wanted : TerminalSet) :
    firstOf wanted text numbersAndStrings = none ∧ continuation text = none := by
  have word := (name_spec named).1
  have strings : string text = none ∧ longString text = none := by
    refine no_string fun letters quote body isQuote marked => ?_
    have splits : letters ++ quote :: body = text := splits_mark marked
    have inside := word quote (by simp [← splits])
    rw [not_word_of_quote isQuote] at inside
    cases inside
  obtain ⟨c, more, rfl, isWord, other⟩ := exists_head_of_name named
  have apart (d : Char) (noWord : isWordChar d = false) : c ≠ d := by
    rintro rfl
    rw [isWord] at noWord
    cases noWord
  have digit : c.isDigit = false := by
    by_contra digit
    rw [digit_of_isDigit (by simpa using digit)] at other
    cases other
  have numbers := no_number digit (apart '.' (by decide)) more
  have newline : newline (c :: more) = none := by
    by_contra found
    obtain ⟨_, found⟩ := Option.ne_none_iff_exists'.mp found
    obtain ⟨d, _, same, member⟩ := exists_of_newline found
    cases same
    have noWord : ∀ c ∈ inert, isWordChar c = false := forall_mem_of_all (by decide)
    exact apart c (noWord c member) rfl
  constructor
  · simp only [numbersAndStrings, firstOf, numbers, strings, newline, ite_self]
  · by_contra found
    obtain ⟨_, found⟩ := Option.ne_none_iff_exists'.mp found
    obtain ⟨_, same⟩ := exists_of_continuation found
    cases same
    exact apart '\\' (by decide) rfl

theorem legible_of_name {place : Extent} (named : name text = some (text, []))
    (free : ∀ k : Terminal, k.isKeyword = true → k.spelling? ≠ some (String.ofList text)) :
    Token.Legible ⟨.name, text, place⟩ := by
  refine ⟨Terminal.noConfusion, ?_⟩
  have keyword : keyword? .spelled text = none := by
    by_contra found
    obtain ⟨k, found⟩ := Option.ne_none_iff_exists'.mp found
    obtain ⟨keyword, _, listed⟩ := keyword?_eq_some found
    obtain ⟨s, spelled, rfl⟩ := mem_literals.mp listed
    exact free k keyword (by rw [spelled, String.ofList_toList])
  obtain ⟨unread, continued⟩ := unread_of_name named .spelled
  have names : TerminalSet.spelled.contains .name = true := by decide
  rw [piece, unread, continued, wordPiece, if_pos names, named]
  dsimp only
  rw [keyword]
  rfl

/-- Whether the text is read as the kind, all of it. -/
private def isRead (kind : Terminal) (text : Text) : Bool :=
  match piece .spelled text with
  | .token k lexeme rest => k = kind && lexeme = text && rest.isEmpty
  | _ => false

set_option maxRecDepth 10000 in
private theorem spellings_read : (spellings.all fun entry => isRead entry.1 entry.2) = true := by
  simp only [isRead, piece_eq]
  decide

theorem legible_of_spelling {spelling : String} {place : Extent}
    (spelled : kind.spelling? = some spelling) :
    Token.Legible ⟨kind, spelling.toList, place⟩ := by
  have solid : kind ≠ .newline := by
    rintro rfl
    cases spelled
  refine ⟨solid, ?_⟩
  have listed : (kind, spelling.toList) ∈ literals := mem_literals.mpr ⟨spelling, spelled, rfl⟩
  rw [literals, List.mem_mergeSort] at listed
  have read := List.all_eq_true.mp spellings_read _ listed
  unfold isRead at read
  split at read
  · next k lexeme rest same =>
    simp only [Bool.and_eq_true, decide_eq_true_eq, List.isEmpty_iff] at read
    obtain ⟨⟨rfl, rfl⟩, rfl⟩ := read
    exact same
  · cases read

end Lexer

end VyperFront
