import VyperFront.Proofs.Lexer.Piece
import VyperFront.Proofs.Lexer.Skip

namespace VyperFront.Lexer

open Lexeme

variable {wanted : TerminalSet} {u w after others lexeme left front body : Text} {kind : Terminal}
  {r scan : Recognizer} {classes : List (Terminal × Recognizer)}

/-- What the recognizer reads before the text after it, or that it reads nothing, does not change
with that text. -/
structure Keeps (r : Recognizer) (u after others : Text) : Prop where
  read {lexeme w : Text} (found : r (u ++ after) = some (lexeme, w ++ after)) :
    r (u ++ others) = some (lexeme, w ++ others)
  unread (missing : r (u ++ after) = none) : r (u ++ others) = none

theorem keeps_of_none (before : r (u ++ after) = none) (now : r (u ++ others) = none) :
    Keeps r u after others where
  read found := by
    rw [before] at found
    cases found
  unread _ := now

/-- A recognizer keeps what it reads if, after some text in front, it reads what ends where it
ends. -/
theorem keeps_of_closed
    (splits : ∀ {t reading}, scan t = some reading → Splits reading t)
    (closed : ∀ {t lexeme rest}, scan t = some (lexeme, rest) →
      ∀ more, scan (lexeme ++ more) = some (lexeme, more))
    (before : r (u ++ after) = (scan (body ++ after)).map (append front))
    (now : r (u ++ others) = (scan (body ++ others)).map (append front))
    (found : scan (body ++ after) ≠ none) : Keeps r u after others where
  read := by
    intro lexeme w read
    rw [before] at read
    obtain ⟨⟨part, rest⟩, here, same⟩ := Option.map_eq_some_iff.mp read
    cases same
    obtain rfl : part ++ w = body := by
      apply List.append_cancel_right
      rw [List.append_assoc]
      exact splits here
    rw [now, List.append_assoc, closed here]
    rfl
  unread missing := by
    rw [before, Option.map_eq_none_iff] at missing
    exact absurd missing found

theorem firstOf_unread (keeps : ∀ entry ∈ classes, Keeps entry.2 u after others)
    (missing : firstOf wanted (u ++ after) classes = none) :
    firstOf wanted (u ++ others) classes = none := by
  induction classes with
  | nil => rfl
  | cons first more ih =>
    obtain ⟨k, r⟩ := first
    obtain ⟨here, later⟩ := List.forall_mem_cons.mp keeps
    dsimp only at here
    rw [firstOf] at missing ⊢
    split
    · next isWanted =>
      rw [if_pos isWanted] at missing
      cases found : r (u ++ after) with
      | none =>
        rw [found] at missing
        rw [here.unread found]
        exact ih later missing
      | some reading =>
        rw [found] at missing
        cases missing
    · next unwanted =>
      rw [if_neg unwanted] at missing
      exact ih later missing

theorem firstOf_read (keeps : ∀ entry ∈ classes, Keeps entry.2 u after others)
    (found : firstOf wanted (u ++ after) classes = some (kind, lexeme, w ++ after)) :
    firstOf wanted (u ++ others) classes = some (kind, lexeme, w ++ others) := by
  induction classes with
  | nil => cases found
  | cons first more ih =>
    obtain ⟨k, r⟩ := first
    obtain ⟨here, later⟩ := List.forall_mem_cons.mp keeps
    dsimp only at here
    rw [firstOf] at found ⊢
    split
    · next isWanted =>
      rw [if_pos isWanted] at found
      split at found
      · next read =>
        cases found
        rw [here.read read]
      · next missing =>
        rw [here.unread missing]
        exact ih later found
    · next unwanted =>
      rw [if_neg unwanted] at found
      exact ih later found

section Keeps

variable (parted : Parted after) (also : Parted others)

include parted also

theorem keeps_of_stopped (stopped : Stopped r) : Keeps r u after others where
  read found := by
    rw [stopped parted] at found
    rw [stopped also]
    obtain ⟨⟨front, rest⟩, here, same⟩ := Option.map_eq_some_iff.mp found
    obtain ⟨rfl, rest⟩ := Prod.mk.inj same
    rw [here, ← List.append_cancel_right rest]
    rfl
  unread missing := by
    rw [stopped parted, Option.map_eq_none_iff] at missing
    rw [stopped also, missing]
    rfl

omit also in
private theorem marked_append {allowed : List Text} (plain : Plain allowed)
    {letters body : Text} {quote : Char} (marked : mark allowed u = some (letters, quote :: body)) :
    mark allowed (u ++ after) = some (letters, quote :: (body ++ after)) := by
  rcases mark_append plain parted u with same | ⟨_, alone⟩
  · rw [same, marked]
    rfl
  · cases alone _ _ marked

theorem keeps_string (closed : ∀ letters quote body, ¬ Opened (u ++ after) letters quote body) :
    Keeps string u after others := by
  have before := string_append parted u
  have now := string_append also u
  rcases marked : mark marks u with _ | ⟨letters, _ | ⟨quote, body⟩⟩
  · rw [marked] at before now
    exact keeps_of_none before now
  · rw [marked] at before now
    exact keeps_of_none before now
  · rw [marked] at before now
    dsimp only at before now
    by_cases short : (isQuote quote && !([quote, quote].isPrefixOf body)) = true
    · rw [if_pos short] at before now
      simp only [Bool.and_eq_true, Bool.not_eq_true'] at short
      have front : append letters ∘ cons quote = append (letters ++ [quote]) := by
        funext reading
        simp [append, cons]
      rw [front] at before now
      refine keeps_of_closed splits_untilQuote untilQuote_closed before now fun open_ => ?_
      have whole := marked_append parted (by decide) marked
      refine closed _ _ _ (opened_of_untilQuote whole short.1 ?_ open_)
      rw [isPrefixOf_quotes parted short.1, short.2]
    · rw [if_neg short] at before now
      exact keeps_of_none before now

theorem keeps_longString (closed : ∀ letters quote body, ¬ Opened (u ++ after) letters quote body) :
    Keeps longString u after others := by
  have before := longString_append parted u
  have now := longString_append also u
  rcases marked : mark longMarks u with _ | ⟨letters, _ | ⟨quote, body⟩⟩
  · rw [marked] at before now
    exact keeps_of_none before now
  · rw [marked] at before now
    exact keeps_of_none before now
  · rw [marked] at before now
    dsimp only at before now
    by_cases long : (isQuote quote && [quote, quote].isPrefixOf body) = true
    · rw [if_pos long] at before now
      obtain ⟨isQuote, body, rfl⟩ : isQuote quote = true ∧ [quote, quote] <+: body := by
        simpa using long
      refine keeps_of_closed splits_untilTripleQuote untilTripleQuote_closed before now
        fun open_ => ?_
      have whole := marked_append parted plain_longMarks marked
      exact closed _ _ _ (opened_of_unclosed ⟨whole, isQuote, open_⟩)
    · rw [if_neg long] at before now
      exact keeps_of_none before now

variable {c : Char}

omit parted also in
theorem none_of_head (other : c ∉ inert) (t : Text) :
    newline (c :: t) = none ∧ continuation (c :: t) = none ∧ spacing (c :: t) = none := by
  refine ⟨?_, ?_, ?_⟩
  · by_contra found
    obtain ⟨reading, found⟩ := Option.ne_none_iff_exists'.mp found
    obtain ⟨d, more, same, member⟩ := exists_of_newline found
    cases same
    exact other member
  · by_contra found
    obtain ⟨reading, found⟩ := Option.ne_none_iff_exists'.mp found
    obtain ⟨more, same⟩ := exists_of_continuation found
    cases same
    exact other (by decide)
  · by_contra found
    obtain ⟨reading, found⟩ := Option.ne_none_iff_exists'.mp found
    obtain ⟨d, more, same, blank⟩ := exists_of_spacing found
    cases same
    have blanks : c = '\t' ∨ c = ' ' ∨ c = '\x0c' := by simpa [isSpacing, or_assoc] using blank
    rcases blanks with rfl | rfl | rfl <;> exact other (by decide)

theorem keeps_numbersAndStrings (head : c ∉ inert)
    (closed : ∀ letters quote body, ¬ Opened (c :: u ++ after) letters quote body) :
    ∀ entry ∈ numbersAndStrings, Keeps entry.2 (c :: u) after others := by
  simp only [numbersAndStrings, List.forall_mem_cons, List.not_mem_nil, false_implies,
    implies_true, and_true]
  exact ⟨keeps_of_stopped parted also stopped_floatNumber,
    keeps_of_stopped parted also stopped_hexNumber, keeps_of_stopped parted also stopped_binNumber,
    keeps_of_stopped parted also stopped_octNumber, keeps_string parted also closed,
    keeps_longString parted also closed, keeps_of_stopped parted also stopped_decNumber,
    keeps_of_none (none_of_head head _).1 (none_of_head head _).1⟩

/-- A token that is no line break is read the same if no quote stays open. -/
theorem piece_of_closed (head : c ∉ inert)
    (closed : ∀ letters quote body, ¬ Opened (c :: u ++ after) letters quote body)
    (found : piece wanted (c :: u ++ after) = .token kind lexeme (w ++ after)) :
    piece wanted (c :: u ++ others) = .token kind lexeme (w ++ others) := by
  have classes := keeps_numbersAndStrings parted also head closed
  obtain ⟨_, unread, unspaced⟩ := none_of_head head (u ++ after)
  obtain ⟨_, unreadNow, unspacedNow⟩ := none_of_head head (u ++ others)
  rw [piece] at found ⊢
  cases first : firstOf wanted (c :: u ++ after) numbersAndStrings with
  | some reading =>
    obtain ⟨k, l, rest⟩ := reading
    rw [first] at found
    cases found
    rw [firstOf_read classes first]
  | none =>
    rw [first] at found
    rw [firstOf_unread classes first]
    dsimp only at found ⊢
    rw [List.cons_append, unread] at found
    rw [List.cons_append, unreadNow]
    dsimp only at found ⊢
    rw [wordPiece, unspaced, ← List.cons_append] at found
    rw [wordPiece, unspacedNow, ← List.cons_append]
    have word : Keeps name (c :: u) after others := keeps_of_stopped parted also stopped_name
    have fixed := fun entry member =>
      keeps_of_stopped (u := c :: u) parted also (@stopped_of_mem_fixed entry member)
    split at found
    · next named =>
      split at named
      · next names =>
        cases found
        rw [if_pos names, word.read named]
      · cases named
    · next unnamed =>
      have still : (if wanted.contains .name = true then name (c :: u ++ others) else none) =
          none := by
        split at unnamed
        · next names => rw [if_pos names, word.unread unnamed]
        · next nameless => rw [if_neg nameless]
      rw [still]
      dsimp only at found ⊢
      split at found
      · next first =>
        cases found
        rw [firstOf_read fixed first]
      · cases found

/-- A token that is no line break is read the same if the lexer goes on after it. -/
theorem piece_of_parted (head : c ∉ inert)
    (found : piece wanted (c :: u ++ after) = .token kind lexeme (w ++ after))
    (goes : ∃ other, piece other (w ++ after) ≠ .none) :
    piece wanted (c :: u ++ others) = .token kind lexeme (w ++ others) :=
  piece_of_closed parted also head (fun _ _ _ => not_opened_of_piece found goes) found

end Keeps

variable {back : Text}

theorem parted_space (back : Text) : Parted (' ' :: back) := .cons (by simp [separators]) back

theorem piece_before_space (isWanted : wanted.contains .newline = true)
    (breaks : newline after ≠ none)
    (found : piece wanted (u ++ after) = .token kind lexeme (w ++ after))
    (goes : ∃ other, piece other (w ++ after) ≠ .none) :
    piece wanted (u ++ ' ' :: back) = .token kind lexeme (w ++ ' ' :: back) := by
  have front := frontOf_piece wanted (u ++ after)
  rw [found] at front
  obtain ⟨_, text, splits⟩ := front
  rw [← List.append_assoc] at splits
  obtain rfl := List.append_cancel_right splits
  obtain ⟨c, v, rfl⟩ := List.exists_cons_of_ne_nil text
  rw [@List.cons_append _ c v w] at found ⊢
  by_cases head : c ∈ inert
  · -- It is a run of line breaks itself, so it stops before another character.
    have read : newline (c :: (v ++ w) ++ after) = some (c :: v, w ++ after) ∧ kind = .newline := by
      rw [List.cons_append, piece_of_inert head, if_pos isWanted] at found
      split at found
      · next read =>
        cases found
        exact ⟨read, rfl⟩
      · split at found <;> cases found
    obtain ⟨read, rfl⟩ := read
    have stops := newline_rest read
    refine (piece_eq_newline_iff isWanted).mpr ?_
    cases w with
    | nil => exact absurd stops breaks
    | cons d w =>
      have again : newline (c :: v ++ d :: (w ++ ' ' :: back)) =
          some (c :: v, d :: (w ++ ' ' :: back)) := by
        refine newline_closed read ?_
        rintro rfl
        cases w with
        | nil => simp
        | cons e w =>
          rintro same
          cases same
          cases stops
      simpa using again
  · exact piece_of_parted (parted_of_newline breaks) (parted_space back) head found goes

/-- A token that ends before a run of line breaks is the next one with a space in its place, if
the lexer goes on after the token. -/
theorem next_before_space {c next : Cursor} {token : SourceToken}
    (isWanted : wanted.contains .newline = true) (breaks : newline after ≠ none)
    (found : Lexer.next wanted c = .token token next) (left : next.rest = w ++ after)
    (goes : ∃ other, ∀ cursor, Lexer.next other next ≠ .stuck cursor) :
    ∃ u, c.rest = u ++ after ∧ ∀ back,
      Lexer.next wanted ⟨u ++ ' ' :: back, c.place⟩ =
        .token token ⟨w ++ ' ' :: back, next.place⟩ := by
  obtain ⟨skipped, rest, skips, first, place, stop⟩ := next_eq_token_iff.mp found
  have some : next.rest ≠ [] := by
    rw [left]
    rintro none
    rw [(List.append_eq_nil_iff.mp none).2] at breaks
    exact breaks rfl
  have onward := exists_piece goes some
  have front := frontOf_piece wanted rest
  rw [first] at front
  obtain ⟨_, text, splits⟩ := front
  rw [left] at first onward splits
  rw [← splits, ← List.append_assoc] at first skips
  refine ⟨skipped ++ token.text ++ w, ?_, fun back => ?_⟩
  · rw [← skips.splits]
    simp
  · refine next_eq_token_iff.mpr ⟨skipped, token.text ++ w ++ ' ' :: back, ?_,
      piece_before_space isWanted breaks first onward, place, stop⟩
    obtain ⟨c, v, same⟩ := List.exists_cons_of_ne_nil text
    rw [same] at skips ⊢
    simpa using skips.closed rfl (v ++ w ++ ' ' :: back)

end VyperFront.Lexer
