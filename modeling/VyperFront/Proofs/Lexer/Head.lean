import VyperFront.Proofs.Lexeme.Beyond
import VyperFront.Proofs.Lexer.Wanted

namespace VyperFront

theorem forall_mem_of_all {p : α → Prop} [DecidablePred p] {l : List α}
    (all : l.all (p ·) = true) : ∀ a ∈ l, p a :=
  fun a member => of_decide_eq_true (List.all_eq_true.mp all a member)

namespace Lexer

open Lexeme

variable {wanted other : TerminalSet} {t u lexeme rest after letters body : Text} {c quote : Char}
  {kind : Terminal}

/-- Characters that begin no number and no string, no name and no fixed text. -/
def inert : List Char := ['\n', '\r', '#', '\\', ' ', '\t', '\x0c']

private theorem mark_of_inert (member : c ∈ inert) {allowed : List Text}
    (listed : allowed = marks ∨ allowed = longMarks) : mark allowed (c :: t) = none := by
  have apart : ∀ c ∈ inert, isQuote c = false ∧
      ∀ letters ∈ marks, letters.head? ≠ some c.toLower :=
    forall_mem_of_all (by decide)
  obtain ⟨noQuote, heads⟩ := apart c member
  apply if_neg
  intro found
  rw [List.contains_iff_mem, List.take_succ_cons, List.takeWhile_cons_of_pos (by simp [noQuote]),
    List.map_cons] at found
  rcases listed with rfl | rfl
  · exact heads _ found rfl
  · exact heads _ (List.mem_append_right _ found) rfl

theorem no_number (digit : c.isDigit = false) (point : c ≠ '.') (t : Text) :
    floatNumber (c :: t) = none ∧ hexNumber (c :: t) = none ∧ binNumber (c :: t) = none ∧
      octNumber (c :: t) = none ∧ decNumber (c :: t) = none := by
  have zero : c ≠ '0' := by
    rintro rfl
    cases digit
  simp [floatNumber, hexNumber, binNumber, octNumber, decNumber, based, digits, digit, point, zero]

/-- Such a character begins nothing but a line break among the first classes. -/
theorem firstOf_of_inert (member : c ∈ inert) :
    firstOf wanted (c :: t) numbersAndStrings =
      if wanted.contains .newline then (newline (c :: t)).map (Prod.mk .newline) else none := by
  have apart : ∀ c ∈ inert, c.isDigit = false ∧ c ≠ '.' := forall_mem_of_all (by decide)
  obtain ⟨digit, point⟩ := apart c member
  have numbers := no_number digit point t
  have string : string (c :: t) = none := by
    simp [Lexeme.string, mark_of_inert member]
  have longString : longString (c :: t) = none := by
    simp [Lexeme.longString, mark_of_inert member]
  simp only [numbersAndStrings, firstOf, numbers, string, longString, ite_self]
  cases newline (c :: t) <;> rfl

set_option maxRecDepth 10000 in
private theorem heads_spellings : (spellings.all fun (_, spelling) =>
    spelling.head?.all fun c => !inert.contains c && !isQuote c) = true := by
  decide

theorem head_of_mem_literals {spelling : Text} (member : (kind, spelling) ∈ literals) :
    ∀ c ∈ spelling.head?, c ∉ inert ∧ isQuote c = false := by
  rw [literals, List.mem_mergeSort] at member
  have checked := List.all_eq_true.mp heads_spellings _ member
  intro c head
  simpa [Option.mem_def.mp head] using checked

theorem firstOf_literals_eq_none
    (apart : ∀ {kind spelling}, (kind, spelling) ∈ literals → ¬ spelling <+: t) :
    firstOf wanted t (literals.map fun (kind, s) => (kind, literal s)) = none := by
  cases found : firstOf wanted t (literals.map fun (kind, s) => (kind, literal s)) with
  | none => rfl
  | some first =>
    obtain ⟨kind, lexeme, rest⟩ := first
    obtain ⟨_, r, member, read⟩ := exists_of_firstOf found
    obtain ⟨⟨_, spelling⟩, listed, same⟩ := List.mem_map.mp member
    cases same
    obtain ⟨rfl, rfl⟩ := literal_eq_some read
    exact absurd (List.prefix_append _ _) (apart listed)

theorem not_prefix_of_head {spelling : Text} (listed : (kind, spelling) ∈ literals)
    (head : c ∈ inert ∨ isQuote c = true) : ¬ spelling <+: c :: t := by
  rintro ⟨more, same⟩
  obtain ⟨d, others, rfl⟩ := List.exists_cons_of_ne_nil (spelling_ne_nil listed)
  obtain rfl := (List.cons.inj same).1
  obtain ⟨notInert, noQuote⟩ := head_of_mem_literals listed d rfl
  rcases head with member | quote
  · exact notInert member
  · rw [noQuote] at quote
    cases quote

private theorem name_of_inert (member : c ∈ inert) : name (c :: t) = none := by
  have apart : ∀ c ∈ inert, isWordChar c = false := forall_mem_of_all (by decide)
  simp [name, apart c member]

/-- Such a character begins a line break, a continuation or spacing, or no piece at all. -/
theorem piece_of_inert (member : c ∈ inert) (wanted : TerminalSet) (t : Text) :
    piece wanted (c :: t) =
      match if wanted.contains .newline then newline (c :: t) else none with
      | some (lexeme, rest) => .token .newline lexeme rest
      | none =>
        match (continuation (c :: t)).or (spacing (c :: t)) with
        | some (lexeme, rest) => .ignored lexeme rest
        | none => .none := by
  have fixed : firstOf wanted (c :: t) (literals.map fun (kind, s) => (kind, literal s)) = none :=
    firstOf_literals_eq_none fun listed => not_prefix_of_head listed (.inl member)
  rw [piece, firstOf_of_inert member, wordPiece, name_of_inert member, fixed, ite_self]
  cases wanted.contains .newline <;> cases newline (c :: t) <;>
    cases continuation (c :: t) <;> cases spacing (c :: t) <;> rfl

theorem exists_of_continuation (found : continuation t = some (lexeme, rest)) :
    ∃ more, t = '\\' :: more := by
  unfold continuation at found
  split at found
  · exact ⟨_, rfl⟩
  · cases found

theorem exists_of_spacing (found : spacing t = some (lexeme, rest)) :
    ∃ c more, t = c :: more ∧ isSpacing c = true := by
  cases t with
  | nil => cases found
  | cons c more =>
    refine ⟨c, more, rfl, ?_⟩
    by_contra other
    simp [spacing, run, other] at found

/-- What is ignored is the same in every state. -/
def Ignored (t lexeme rest : Text) : Prop :=
  continuation t = some (lexeme, rest) ∨ spacing t = some (lexeme, rest)

theorem piece_eq_ignored_iff :
    piece wanted t = .ignored lexeme rest ↔ Ignored t lexeme rest := by
  constructor
  · exact ignored_of_piece
  · rintro (continued | spaced)
    · obtain ⟨more, rfl⟩ := exists_of_continuation continued
      rw [piece_of_inert (by decide), continued]
      cases wanted.contains .newline <;> rfl
    · obtain ⟨c, more, rfl, blank⟩ := exists_of_spacing spaced
      have blanks : c = '\t' ∨ c = ' ' ∨ c = '\x0c' := by
        simpa [isSpacing, or_assoc] using blank
      rw [piece_of_inert (by rcases blanks with rfl | rfl | rfl <;> decide), spaced]
      rcases blanks with rfl | rfl | rfl <;> cases wanted.contains .newline <;> rfl

theorem exists_of_newline (found : newline t = some (lexeme, rest)) :
    ∃ c more, t = c :: more ∧ c ∈ inert := by
  unfold newline at found
  split at found
  · exact ⟨_, _, rfl, by decide⟩
  · exact ⟨_, _, rfl, by decide⟩
  · exact ⟨_, _, rfl, by decide⟩
  · cases found

/-- Line breaks are read wherever they are wanted, and nothing else is read as one. -/
theorem piece_eq_newline_iff (isWanted : wanted.contains .newline = true) :
    piece wanted t = .token .newline lexeme rest ↔ newline t = some (lexeme, rest) := by
  constructor
  · intro found
    cases readBy_of_piece found with
    | pattern _ listed read =>
      simp only [numbersAndStrings, List.mem_cons, Prod.mk.injEq, List.not_mem_nil, reduceCtorEq,
        false_and, false_or, or_false, true_and] at listed
      rwa [listed] at read
    | keyword _ _ _ listed | fixed _ _ listed =>
      obtain ⟨_, spelled, _⟩ := mem_literals.mp listed
      cases spelled
  · intro found
    obtain ⟨c, more, rfl, member⟩ := exists_of_newline found
    rw [piece_of_inert member, if_pos isWanted, found]

/-- A quote, with letters in front of it, that begins no string. -/
structure Opened (t letters : Text) (quote : Char) (body : Text) : Prop where
  marked : mark marks t = some (letters, quote :: body)
  isQuote : isQuote quote = true
  string : string (quote :: body) = none
  longString : longString (quote :: body) = none

private theorem mark_quote {allowed : List Text} (listed : [] ∈ allowed)
    (isQuote : isQuote quote = true) : mark allowed (quote :: body) = some ([], quote :: body) := by
  simp [mark, isQuote, listed]

/-- With the letters in front of it read, the quote still begins no string. -/
theorem Opened.after_letters (opened : Opened t letters quote body) :
    Opened (quote :: body) [] quote body where
  marked := mark_quote (by decide) opened.isQuote
  isQuote := opened.isQuote
  string := opened.string
  longString := opened.longString

private theorem longMarks_subset : longMarks ⊆ marks := fun _ => List.mem_append_right _

theorem mark_longMarks {letters rest : Text} (marked : mark longMarks t = some (letters, rest)) :
    mark marks t = some (letters, rest) := by
  unfold mark at marked ⊢
  dsimp only at marked ⊢
  split at marked
  · next found =>
    have also := longMarks_subset (List.contains_iff_mem.mp found)
    exact (if_pos (List.contains_iff_mem.mpr also)).trans marked
  · cases marked

theorem opened_of_unclosed (unclosed : Unclosed t letters quote body) :
    Opened t letters quote (quote :: quote :: body) where
  marked := mark_longMarks unclosed.marked
  isQuote := unclosed.isQuote
  string := by
    simp [Lexeme.string, mark_quote (show [] ∈ marks by decide) unclosed.isQuote]
  longString := by
    simp [Lexeme.longString, mark_quote (show [] ∈ longMarks by decide) unclosed.isQuote,
      unclosed.unclosed]

theorem opened_of_untilQuote (marked : mark marks t = some (letters, quote :: body))
    (isQuote : isQuote quote = true) (short : [quote, quote].isPrefixOf body = false)
    (open_ : untilQuote quote body = none) : Opened t letters quote body where
  marked := marked
  isQuote := isQuote
  string := by simp [Lexeme.string, mark_quote (show [] ∈ marks by decide) isQuote, open_]
  longString := by
    simp only [Lexeme.longString, mark_quote (show [] ∈ longMarks by decide) isQuote, short]
    simp

theorem Opened.string_eq_none (opened : Opened t letters quote body) :
    Lexeme.string t = none := by
  have none := opened.string
  simp only [Lexeme.string, mark_quote (show [] ∈ marks by decide) opened.isQuote] at none
  simp only [Lexeme.string, opened.marked]
  split
  · next plain =>
    rw [if_pos plain, Option.map_eq_none_iff] at none
    rw [none]
    rfl
  · rfl

theorem Opened.longString_eq_none (opened : Opened t letters quote body) :
    Lexeme.longString t = none := by
  have none := opened.longString
  simp only [Lexeme.longString, mark_quote (show [] ∈ longMarks by decide) opened.isQuote] at none
  cases marked : mark longMarks t with
  | none => simp [Lexeme.longString, marked]
  | some reading =>
    obtain ⟨others, rest⟩ := reading
    have same := (mark_longMarks marked).symm.trans opened.marked
    cases same
    simp only [Lexeme.longString, marked]
    split
    · next triple =>
      rw [if_pos triple, Option.map_eq_none_iff] at none
      rw [none]
      rfl
    · rfl

/-- The letters that may stand in front of a string. -/
def markLetters : List Char := ['u', 'U', 'b', 'B', 'f', 'F', 'r', 'R', 'x', 'X']

private theorem mem_markLetters (lower : c.toLower ∈ ['u', 'b', 'f', 'r', 'x']) :
    c ∈ markLetters := by
  by_cases ascii : c.toNat < 128
  · have checked : ∀ code : Fin 128, (Char.ofNat code).toLower ∈ ['u', 'b', 'f', 'r', 'x'] →
        Char.ofNat code ∈ markLetters := by decide
    have known := checked ⟨c.toNat, ascii⟩
    simp only [Char.ofNat_toNat] at known
    exact known lower
  · have same : c.toLower = c := by
      apply dif_neg
      rintro ⟨_, upper⟩
      have le : c.toNat ≤ 90 := upper
      omega
    rw [same] at lower
    simp only [List.mem_cons, List.not_mem_nil, or_false] at lower
    rcases lower with rfl | rfl | rfl | rfl | rfl <;> decide

private theorem parts_of_mark (marked : mark marks t = some (letters, rest)) :
    t = letters ++ rest ∧ letters.map Char.toLower ∈ marks ∧ ∀ c ∈ letters, c ∈ markLetters := by
  have splits := splits_mark marked
  unfold mark at marked
  dsimp only at marked
  split at marked
  · next listed =>
    obtain ⟨same, _⟩ := Prod.mk.inj (Option.some.inj marked)
    rw [same, List.contains_iff_mem] at listed
    refine ⟨splits.symm, listed, fun c member => mem_markLetters ?_⟩
    have lower : ∀ letters ∈ marks, letters ⊆ ['u', 'b', 'f', 'r', 'x'] := by decide
    exact lower _ listed (List.mem_map_of_mem member)
  · cases marked

private theorem quote_cases (isQuote : isQuote quote = true) : quote = '"' ∨ quote = '\'' := by
  simpa [Lexeme.isQuote] using isQuote

theorem not_word_of_quote (isQuote : isQuote quote = true) : isWordChar quote = false := by
  rcases quote_cases isQuote with rfl | rfl <;> decide

/-- What a text begins with that begins with a string, closed or not. -/
theorem exists_head (marked : mark marks t = some (letters, quote :: body))
    (isQuote : isQuote quote = true) : ∃ c more, t = c :: more ∧ c ∈ '"' :: '\'' :: markLetters := by
  obtain ⟨rfl, _, all⟩ := parts_of_mark marked
  cases letters with
  | nil =>
    refine ⟨quote, _, rfl, ?_⟩
    rcases quote_cases isQuote with rfl | rfl <;> decide
  | cons c more =>
    refine ⟨c, _, rfl, ?_⟩
    exact List.mem_cons_of_mem _ (List.mem_cons_of_mem _ (all c List.mem_cons_self))

theorem apart_of_head (begins : c ∈ '"' :: '\'' :: markLetters) :
    c.isDigit = false ∧ c ≠ '.' ∧ c ∉ inert := by
  revert begins
  exact (forall_mem_of_all (by decide) : ∀ c ∈ '"' :: '\'' :: markLetters,
    c.isDigit = false ∧ c ≠ '.' ∧ c ∉ inert) c

/-- Of the classes before names none reads a string that is not closed. -/
private theorem firstOf_of_opened (opened : Opened t letters quote body)
    (wanted : TerminalSet) : firstOf wanted t numbersAndStrings = none := by
  have string := opened.string_eq_none
  have longString := opened.longString_eq_none
  obtain ⟨c, more, rfl, begins⟩ := exists_head opened.marked opened.isQuote
  obtain ⟨digit, point, notInert⟩ := apart_of_head begins
  have numbers := no_number digit point more
  have newline : newline (c :: more) = none := by
    cases found : newline (c :: more) with
    | none => rfl
    | some reading =>
      obtain ⟨_, _, same, member⟩ := exists_of_newline found
      cases same
      exact absurd member notInert
  simp only [numbersAndStrings, firstOf, numbers, string, longString, newline, ite_self]

set_option maxRecDepth 10000 in
private theorem spellings_apart : (spellings.all fun (_, spelling) =>
    marks.all fun letters => !(spelling.map Char.toLower).isPrefixOf letters) = true := by
  decide

private theorem not_prefix_of_opened (opened : Opened t letters quote body)
    {spelling : Text} (member : (kind, spelling) ∈ literals) : ¬ spelling <+: t := by
  obtain ⟨rfl, listed, all⟩ := parts_of_mark opened.marked
  intro front
  have noWord := not_word_of_quote opened.isQuote
  rcases wordlike member with word | others
  · have inside : spelling <+: letters := by
      by_contra beyond
      have longer : letters.length ≤ spelling.length := by
        by_contra shorter
        exact beyond (List.prefix_of_prefix_length_le front (List.prefix_append ..) (by omega))
      obtain ⟨more, rfl⟩ :=
        List.prefix_of_prefix_length_le (List.prefix_append letters _) front longer
      rw [List.prefix_append_right_inj] at front
      cases more with
      | nil => exact beyond (by simp)
      | cons c more =>
        obtain ⟨rfl, _⟩ := List.cons_prefix_cons.mp front
        have isWord := word c (by simp)
        rw [noWord] at isWord
        cases isWord
    rw [literals, List.mem_mergeSort] at member
    have apart := List.all_eq_true.mp (List.all_eq_true.mp spellings_apart _ member) _ listed
    have begins := List.isPrefixOf_iff_prefix.mpr (inside.map Char.toLower)
    rw [begins] at apart
    cases apart
  · obtain ⟨c, more, rfl⟩ := List.exists_cons_of_ne_nil (spelling_ne_nil member)
    cases letters with
    | nil =>
      obtain ⟨rfl, _⟩ := List.cons_prefix_cons.mp front
      have other := (head_of_mem_literals member c rfl).2
      rw [opened.isQuote] at other
      cases other
    | cons d letters =>
      have head := (List.cons_prefix_cons.mp front).1
      have isWord : ∀ c ∈ markLetters, isWordChar c = true := forall_mem_of_all (by decide)
      have other := others c rfl
      rw [head, isWord d (all d List.mem_cons_self)] at other
      cases other

/-- A quote that begins no string is no piece. With letters in front of it, those are a name, or
there is no piece, either. -/
theorem piece_of_opened (opened : Opened t letters quote body) (wanted : TerminalSet) :
    piece wanted t = .none ∨ letters ≠ [] ∧
      ∃ kind, piece wanted t = .token kind letters (quote :: body) := by
  have continued : continuation t = none := by
    cases found : continuation t with
    | none => rfl
    | some reading =>
      obtain ⟨more, rfl⟩ := exists_of_continuation found
      obtain ⟨_, _, same, begins⟩ := exists_head opened.marked opened.isQuote
      cases same
      exact absurd begins (by decide)
  have spaced : spacing t = none := by
    cases found : spacing t with
    | none => rfl
    | some reading =>
      obtain ⟨c, more, rfl, blank⟩ := exists_of_spacing found
      obtain ⟨_, _, same, begins⟩ := exists_head opened.marked opened.isQuote
      cases same
      have apart : ∀ c ∈ '"' :: '\'' :: markLetters, isSpacing c = false :=
        forall_mem_of_all (by decide)
      rw [apart c begins] at blank
      cases blank
  have fixed : firstOf wanted t (literals.map fun (kind, s) => (kind, literal s)) = none :=
    firstOf_literals_eq_none fun listed => not_prefix_of_opened opened listed
  rw [piece, firstOf_of_opened opened, continued, wordPiece, spaced, fixed]
  by_cases names : wanted.contains .name = true
  · have noWord := not_word_of_quote opened.isQuote
    obtain ⟨rfl, _, all⟩ := parts_of_mark opened.marked
    rw [if_pos names]
    cases letters with
    | nil => exact .inl (by simp [name, noWord])
    | cons c more =>
      have word : ∀ c ∈ markLetters, isWordChar c = true ∧ isDecimalDigit c = false :=
        forall_mem_of_all (by decide)
      have rest : run isWordChar (more ++ quote :: body) = (more, _) :=
        run_of_forall (fun d member => (word d (all d (List.mem_cons_of_mem _ member))).1)
          (by simp [noWord])
      have named : name (c :: more ++ quote :: body) = some (c :: more, quote :: body) := by
        simp [name, word c (all c List.mem_cons_self), rest, cons]
      rw [named]
      exact .inr ⟨List.cons_ne_nil _ _, _, rfl⟩
  · simp [names]

/-- Where the lexer reads a token and something after it, there is no such quote. -/
theorem not_opened_of_piece (found : piece wanted t = .token kind lexeme rest)
    (goes : ∃ other, piece other rest ≠ .none) : ¬ Opened t letters quote body := by
  intro opened
  rcases piece_of_opened opened wanted with none | ⟨_, k, name⟩
  · rw [none] at found
    cases found
  · rw [name] at found
    obtain rfl := (Piece.token.inj found).2.2
    obtain ⟨other, some⟩ := goes
    rcases piece_of_opened opened.after_letters other with none | ⟨letters, _⟩
    · exact some none
    · exact letters rfl

end Lexer

end VyperFront
