import VyperFront.Lexer
import VyperFront.Proofs.Lexeme

namespace VyperFront

theorem TerminalSet.contains_ofList {ts : List Terminal} {t : Terminal} :
    (ofList ts).contains t = true ↔ t ∈ ts := by
  induction ts with
  | nil => simp [ofList]
  | cons u rest ih =>
    have more : ofList (u :: rest) = singleton u ∪ ofList rest := rfl
    rw [more, contains_union, Bool.or_eq_true, ih, contains_singleton, decide_eq_true_eq,
      List.mem_cons, eq_comm]

theorem TerminalSet.contains_spelled {t : Terminal} :
    spelled.contains t = true ↔ t ≠ .indent ∧ t ≠ .dedent ∧ t ≠ .endOfInput := by
  rw [spelled, contains_ofList, List.mem_filter, decide_eq_true_eq]
  exact and_iff_right t.mem_all

namespace Lexer

/-- What reads a token: a class of numbers, strings or line breaks, the class of names, which reads
the keywords, too, or a fixed text where no name is read. -/
inductive ReadBy (wanted : TerminalSet) (t : Text) : Terminal → Text → Text → Prop where
  | pattern {r : Recognizer} (isWanted : wanted.contains kind = true)
      (listed : (kind, r) ∈ numbersAndStrings) (read : r t = some (lexeme, rest)) :
    ReadBy wanted t kind lexeme rest
  | name (isWanted : wanted.contains .name = true)
      (named : Lexeme.name t = some (lexeme, rest)) :
    ReadBy wanted t .name lexeme rest
  | keyword (isWanted : wanted.contains kind = true)
      (named : Lexeme.name t = some (lexeme, rest)) (isKeyword : kind.isKeyword = true)
      (listed : (kind, lexeme) ∈ literals) :
    ReadBy wanted t kind lexeme rest
  | fixed {spelling : Text} (isWanted : wanted.contains kind = true)
      (nameless : wanted.contains .name = true → Lexeme.name t = none)
      (listed : (kind, spelling) ∈ literals)
      (read : Lexeme.literal spelling t = some (lexeme, rest)) :
    ReadBy wanted t kind lexeme rest

variable {wanted : TerminalSet} {t lexeme rest : Text} {kind : Terminal} {c cursor : Cursor}
  {token : SourceToken}

theorem mem_literals {spelling : Text} :
    (kind, spelling) ∈ literals ↔ ∃ s, kind.spelling? = some s ∧ s.toList = spelling := by
  rw [literals, List.mem_mergeSort, spellings, List.mem_filterMap]
  constructor
  · rintro ⟨u, _, same⟩
    obtain ⟨s, spelled, same⟩ := Option.map_eq_some_iff.mp same
    cases same
    exact ⟨s, spelled, rfl⟩
  · rintro ⟨s, spelled, rfl⟩
    exact ⟨kind, kind.mem_all, by rw [spelled]; rfl⟩

theorem spelling_ne_nil {spelling : Text} (member : (kind, spelling) ∈ literals) :
    spelling ≠ [] := by
  obtain ⟨s, spelled, rfl⟩ := mem_literals.mp member
  cases kind <;> cases spelled <;> decide

theorem exists_of_firstOf {classes : List (Terminal × Recognizer)}
    (found : firstOf wanted t classes = some (kind, lexeme, rest)) :
    wanted.contains kind = true ∧ ∃ r, (kind, r) ∈ classes ∧ r t = some (lexeme, rest) := by
  induction classes with
  | nil => cases found
  | cons first more ih =>
    obtain ⟨k, r⟩ := first
    rw [firstOf] at found
    split at found
    · next isWanted =>
      split at found
      · next read =>
        cases found
        exact ⟨isWanted, r, List.mem_cons_self, read⟩
      · obtain ⟨isWanted, r, member, read⟩ := ih found
        exact ⟨isWanted, r, List.mem_cons_of_mem _ member, read⟩
    · obtain ⟨isWanted, r, member, read⟩ := ih found
      exact ⟨isWanted, r, List.mem_cons_of_mem _ member, read⟩

theorem proper_numbersAndStrings {r : Recognizer} (member : (kind, r) ∈ numbersAndStrings) :
    Lexeme.Proper r := by
  simp only [numbersAndStrings, List.mem_cons, Prod.mk.injEq, List.not_mem_nil, or_false] at member
  rcases member with ⟨_, rfl⟩ | ⟨_, rfl⟩ | ⟨_, rfl⟩ | ⟨_, rfl⟩ | ⟨_, rfl⟩ | ⟨_, rfl⟩ | ⟨_, rfl⟩ |
    ⟨_, rfl⟩
  · exact Lexeme.proper_floatNumber
  · exact Lexeme.proper_based _ _
  · exact Lexeme.proper_based _ _
  · exact Lexeme.proper_based _ _
  · exact Lexeme.proper_string
  · exact Lexeme.proper_longString
  · exact Lexeme.proper_decNumber
  · exact Lexeme.proper_newline

/-- What a piece has to do with the text that it is read off. -/
def Piece.FrontOf (wanted : TerminalSet) (t : Text) : Piece → Prop
  | .token kind lexeme rest => wanted.contains kind = true ∧ lexeme ≠ [] ∧ lexeme ++ rest = t
  | .ignored lexeme rest => lexeme ≠ [] ∧ lexeme ++ rest = t
  | .none => True

theorem keyword?_eq_some {word : Text} (found : keyword? wanted word = some kind) :
    kind.isKeyword = true ∧ wanted.contains kind = true ∧ (kind, word) ∈ literals := by
  obtain ⟨⟨_, spelling⟩, first, rfl⟩ := Option.map_eq_some_iff.mp found
  have matched := List.find?_some first
  simp only [Bool.and_eq_true, beq_iff_eq] at matched
  obtain ⟨⟨keyword, isWanted⟩, rfl⟩ := matched
  exact ⟨keyword, isWanted, List.mem_of_find?_eq_some first⟩

private theorem readBy_of_wordPiece (found : wordPiece wanted t = .token kind lexeme rest) :
    ReadBy wanted t kind lexeme rest := by
  unfold wordPiece at found
  split at found
  · next word after named =>
    obtain ⟨same, rfl, rfl⟩ := Piece.token.inj found
    split at named
    · next isWanted =>
      cases spelled : keyword? wanted word with
      | none =>
        rw [spelled] at same
        obtain rfl : kind = .name := same.symm
        exact .name isWanted named
      | some k =>
        rw [spelled] at same
        obtain rfl : kind = k := same.symm
        obtain ⟨isKeyword, kindWanted, listed⟩ := keyword?_eq_some spelled
        exact .keyword kindWanted named isKeyword listed
    · cases named
  · next nameless =>
    split at found
    · cases found
    · split at found
      · next first =>
        obtain ⟨rfl, rfl, rfl⟩ := Piece.token.inj found
        obtain ⟨isWanted, r, member, read⟩ := exists_of_firstOf first
        obtain ⟨⟨_, spelling⟩, listed, same⟩ := List.mem_map.mp member
        cases same
        exact .fixed isWanted (fun names => by rwa [if_pos names] at nameless) listed read
      · cases found

/-- A token is read in one of four ways. -/
theorem readBy_of_piece (found : piece wanted t = .token kind lexeme rest) :
    ReadBy wanted t kind lexeme rest := by
  unfold piece at found
  split at found
  · next first =>
    obtain ⟨rfl, rfl, rfl⟩ := Piece.token.inj found
    obtain ⟨isWanted, r, listed, read⟩ := exists_of_firstOf first
    exact .pattern isWanted listed read
  · split at found
    · cases found
    · exact readBy_of_wordPiece found

theorem ignored_of_piece (found : piece wanted t = .ignored lexeme rest) :
    Lexeme.continuation t = some (lexeme, rest) ∨ Lexeme.spacing t = some (lexeme, rest) := by
  unfold piece at found
  split at found
  · cases found
  · split at found
    · next continued =>
      cases found
      exact .inl continued
    · unfold wordPiece at found
      split at found
      · cases found
      · split at found
        · next spaced =>
          cases found
          exact .inr spaced
        · split at found <;> cases found

theorem ReadBy.isWanted (reads : ReadBy wanted t kind lexeme rest) :
    wanted.contains kind = true := by
  cases reads <;> assumption

theorem ReadBy.splits (reads : ReadBy wanted t kind lexeme rest) :
    lexeme ≠ [] ∧ lexeme ++ rest = t := by
  cases reads with
  | pattern _ listed read => exact proper_numbersAndStrings listed read
  | name _ named | keyword _ named => exact Lexeme.proper_name named
  | fixed _ _ listed read => exact Lexeme.proper_literal (spelling_ne_nil listed) read

theorem frontOf_piece (wanted : TerminalSet) (t : Text) : (piece wanted t).FrontOf wanted t := by
  cases found : piece wanted t with
  | token kind lexeme rest =>
    have reads := readBy_of_piece found
    exact ⟨reads.isWanted, reads.splits⟩
  | ignored lexeme rest =>
    rcases ignored_of_piece found with continued | spaced
    · exact Lexeme.proper_continuation continued
    · exact Lexeme.proper_spacing spaced
  | none => trivial

private theorem exists_piece_of_nextFrom {steps : Nat}
    (found : nextFrom wanted steps c = .token token cursor) :
    ∃ skipped rest, skipped ++ rest = c.rest ∧
      piece wanted rest = .token token.kind token.text cursor.rest ∧
      token.place = ⟨c.place.advance skipped, c.place.advance (skipped ++ token.text)⟩ ∧
      cursor.place = token.place.stop := by
  induction steps generalizing c with
  | zero => cases found
  | succ steps ih =>
    rw [nextFrom] at found
    split at found
    · cases found
    · split at found
      · next first =>
        cases found
        exact ⟨[], c.rest, rfl, first, rfl, rfl⟩
      · next lexeme left ignored =>
        have front := frontOf_piece wanted c.rest
        rw [ignored] at front
        obtain ⟨skipped, rest, splits, first, place, stop⟩ := ih found
        refine ⟨lexeme ++ skipped, rest, ?_, first, ?_, stop⟩
        · rw [List.append_assoc, splits, front.2]
        · rw [place, List.append_assoc, ← Place.advance_append, ← Place.advance_append]
      · cases found

theorem exists_piece_of_next (found : next wanted c = .token token cursor) :
    ∃ skipped rest, skipped ++ rest = c.rest ∧
      piece wanted rest = .token token.kind token.text cursor.rest ∧
      token.place = ⟨c.place.advance skipped, c.place.advance (skipped ++ token.text)⟩ ∧
      cursor.place = token.place.stop :=
  exists_piece_of_nextFrom found

/-- A token is of a wanted kind, and takes a character at least. -/
theorem next_eq_token (found : next wanted c = .token token cursor) :
    wanted.contains token.kind = true ∧ cursor.rest.length < c.rest.length := by
  obtain ⟨skipped, rest, passes, first, _⟩ := exists_piece_of_next found
  have reads := readBy_of_piece first
  obtain ⟨some, splits⟩ := reads.splits
  refine ⟨reads.isWanted, ?_⟩
  have := List.length_pos_iff.mpr some
  rw [← passes, ← splits, List.length_append, List.length_append]
  omega

/-- Steps that are enough to reach the end lead to the same token. -/
private theorem nextFrom_eq_of_lt {steps others : Nat} (enough : c.rest.length < steps)
    (also : c.rest.length < others) : nextFrom wanted steps c = nextFrom wanted others c := by
  induction steps generalizing c others with
  | zero => omega
  | succ steps ih =>
    obtain ⟨others, rfl⟩ := Nat.exists_eq_add_one.mpr (Nat.zero_lt_of_lt also)
    have front := frontOf_piece wanted c.rest
    rw [nextFrom, nextFrom]
    split
    · rfl
    · split
      · rfl
      · next lexeme rest same =>
        rw [same] at front
        have length := congrArg List.length front.2
        have := List.length_pos_iff.mpr front.1
        rw [List.length_append] at length
        exact ih (by dsimp only; omega) (by dsimp only; omega)
      · rfl

theorem next_of_token (found : piece wanted c.rest = .token kind lexeme rest) :
    next wanted c = .token ⟨kind, lexeme, ⟨c.place, c.place.advance lexeme⟩⟩
      ⟨rest, c.place.advance lexeme⟩ := by
  have front := frontOf_piece wanted c.rest
  rw [found] at front
  have some : ¬ c.rest.isEmpty := by
    rw [← front.2.2, List.isEmpty_iff]
    exact List.append_ne_nil_of_left_ne_nil front.2.1 rest
  rw [next, nextFrom, if_neg some, found]

theorem next_of_ignored (found : piece wanted c.rest = .ignored lexeme rest) :
    next wanted c = next wanted ⟨rest, c.place.advance lexeme⟩ := by
  have front := frontOf_piece wanted c.rest
  rw [found] at front
  have some : ¬ c.rest.isEmpty := by
    rw [← front.2, List.isEmpty_iff]
    exact List.append_ne_nil_of_left_ne_nil front.1 rest
  have length := congrArg List.length front.2
  have := List.length_pos_iff.mpr front.1
  rw [List.length_append] at length
  rw [next, nextFrom, if_neg some, found]
  exact nextFrom_eq_of_lt (by dsimp only; omega) (Nat.lt_succ_self _)

/-- The lexer reads the text to its end, as these tokens. -/
inductive Tokenizes (wanted : TerminalSet) : Cursor → List SourceToken → Prop where
  | done (finished : next wanted here = .finished) : Tokenizes wanted here []
  | more (read : next wanted here = .token first after)
    (rest : Tokenizes wanted after later) : Tokenizes wanted here (first :: later)

theorem Tokenizes.of_next {tokens : List SourceToken} (tokenizes : Tokenizes wanted cursor tokens)
    (same : next wanted c = next wanted cursor) : Tokenizes wanted c tokens := by
  cases tokenizes with
  | done finished => exact .done (same.trans finished)
  | more read rest => exact .more (same.trans read) rest

/-- The text that the parts make. -/
def joined (parts : List (Option Terminal × Text)) : Text := parts.flatMap Prod.snd

/-- The tokens among the parts, at their places. -/
def placed (here : Place) : List (Option Terminal × Text) → List SourceToken
  | [] => []
  | (some kind, lexeme) :: rest =>
    ⟨kind, lexeme, ⟨here, here.advance lexeme⟩⟩ :: placed (here.advance lexeme) rest
  | (none, lexeme) :: rest => placed (here.advance lexeme) rest

/-- What is read at the front of each part and those after it, if they are the pieces. -/
def pieces : List (Option Terminal × Text) → List Piece
  | [] => []
  | (some kind, lexeme) :: rest => .token kind lexeme (joined rest) :: pieces rest
  | (none, lexeme) :: rest => .ignored lexeme (joined rest) :: pieces rest

/-- The texts from each part on. -/
def fronts : List (Option Terminal × Text) → List Text
  | [] => []
  | first :: rest => joined (first :: rest) :: fronts rest

/-- A text is read as its parts, if each is the first piece of what begins with it. -/
theorem tokenizes_placed {parts : List (Option Terminal × Text)} (here : Place)
    (read : (fronts parts).map (piece wanted) = pieces parts) :
    Tokenizes wanted ⟨joined parts, here⟩ (placed here parts) := by
  induction parts generalizing here with
  | nil => exact .done rfl
  | cons first rest ih =>
    obtain ⟨kind, lexeme⟩ := first
    cases kind with
    | some kind =>
      obtain ⟨front, later⟩ := List.cons.inj read
      exact .more (next_of_token (c := ⟨_, here⟩) front) (ih _ later)
    | none =>
      obtain ⟨front, later⟩ := List.cons.inj read
      exact (ih _ later).of_next (next_of_ignored (c := ⟨_, here⟩) front)

/-- The parts of a text, from an offset on, that are its tokens or stand between them. -/
def partsFrom (text : Text) (here : Nat) : List SourceToken → List (Option Terminal × Text)
  | [] => []
  | t :: rest =>
    let later := (some t.kind, t.text) :: partsFrom text t.place.stop.offset rest
    if here < t.place.start.offset then (none, text.slice here t.place.start.offset) :: later
    else later

end Lexer

end VyperFront
