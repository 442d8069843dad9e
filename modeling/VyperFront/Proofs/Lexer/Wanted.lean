import Mathlib.Data.List.Nodup
import Mathlib.Data.List.Permutation
import Mathlib.Data.List.TakeWhile
import VyperFront.Proofs.Lexer

/-! The lexer with fewer terminals wanted. A token that is read when everything is
wanted is also read when only its own kind and some others are: classes that go before it
do not match, and a longer fixed text would go on with the same word. -/

namespace VyperFront.Lexer

variable {wanted : TerminalSet} {t lexeme rest word : Text} {kind other : Terminal}
  {c cursor : Cursor} {token : SourceToken}

theorem spelled_of_mem_literals {spelling : Text} (member : (kind, spelling) ∈ literals) :
    TerminalSet.spelled.contains kind = true := by
  obtain ⟨s, spelled, _⟩ := mem_literals.mp member
  rw [TerminalSet.contains_spelled]
  refine ⟨?_, ?_, ?_⟩ <;> rintro rfl <;> cases spelled

theorem firstOf_narrow {classes : List (Terminal × Recognizer)}
    (spelled : ∀ entry ∈ classes, TerminalSet.spelled.contains entry.1 = true)
    (found : firstOf .spelled t classes = some (kind, lexeme, rest))
    (isWanted : wanted.contains kind = true) :
    firstOf wanted t classes = some (kind, lexeme, rest) := by
  induction classes with
  | nil => cases found
  | cons first more ih =>
    obtain ⟨k, r⟩ := first
    have later := ih fun entry member => spelled entry (List.mem_cons_of_mem _ member)
    rw [firstOf, if_pos (spelled _ List.mem_cons_self)] at found
    rw [firstOf]
    cases read : r t with
    | some reading =>
      rw [read] at found
      cases found
      rw [if_pos isWanted]
    | none =>
      rw [read] at found
      simp only [later found, ite_self]

theorem firstOf_eq_none_narrow {classes : List (Terminal × Recognizer)}
    (spelled : ∀ entry ∈ classes, TerminalSet.spelled.contains entry.1 = true)
    (nothing : firstOf .spelled t classes = none) : firstOf wanted t classes = none := by
  induction classes with
  | nil => rfl
  | cons first more ih =>
    obtain ⟨k, r⟩ := first
    have later := ih fun entry member => spelled entry (List.mem_cons_of_mem _ member)
    rw [firstOf, if_pos (spelled _ List.mem_cons_self)] at nothing
    rw [firstOf]
    cases read : r t with
    | some reading => simp [read] at nothing
    | none =>
      rw [read] at nothing
      simp only [later nothing, ite_self]

set_option maxRecDepth 10000 in
private theorem nodup_spellings : (spellings.map Prod.snd).Nodup := by decide

theorem spelling_inj (member : (kind, word) ∈ literals) (also : (other, word) ∈ literals) :
    kind = other := by
  rw [literals, List.mem_mergeSort] at member also
  exact congrArg Prod.fst (List.inj_on_of_nodup_map nodup_spellings member also rfl)

theorem keyword?_eq_some_iff :
    keyword? wanted word = some kind ↔
      kind.isKeyword = true ∧ wanted.contains kind = true ∧ (kind, word) ∈ literals := by
  refine ⟨keyword?_eq_some, ?_⟩
  rintro ⟨keyword, isWanted, member⟩
  have matched : (keyword? wanted word).isSome := by
    rw [keyword?, Option.isSome_map, List.find?_isSome]
    exact ⟨_, member, by simp [keyword, isWanted]⟩
  obtain ⟨other, also⟩ := Option.isSome_iff_exists.mp matched
  rw [also, spelling_inj member (keyword?_eq_some also).2.2]

theorem keyword?_narrow (found : keyword? .spelled word = some kind)
    (isWanted : wanted.contains kind = true) : keyword? wanted word = some kind := by
  obtain ⟨keyword, _, member⟩ := keyword?_eq_some found
  exact keyword?_eq_some_iff.mpr ⟨keyword, isWanted, member⟩

theorem keyword?_eq_none_narrow (nothing : keyword? .spelled word = none) :
    keyword? wanted word = none := by
  rw [keyword?, Option.map_eq_none_iff, List.find?_eq_none] at nothing ⊢
  rintro ⟨other, spelling⟩ member matched
  simp only [Bool.and_eq_true] at matched
  refine nothing _ member ?_
  simp only [Bool.and_eq_true]
  exact ⟨⟨matched.1.1, spelled_of_mem_literals member⟩, matched.2⟩

set_option maxRecDepth 10000 in
private theorem wordlike_spellings : (spellings.all fun (_, spelling) =>
    spelling.all isWordChar || !spelling.head?.any isWordChar) = true := by
  decide

/-- A fixed text is made of word characters, or it does not begin with one. -/
theorem wordlike (member : (kind, word) ∈ literals) :
    (∀ c ∈ word, isWordChar c = true) ∨ ∀ c ∈ word.head?, isWordChar c = false := by
  rw [literals, List.mem_mergeSort] at member
  have checked := List.all_eq_true.mp wordlike_spellings _ member
  simpa [Option.any_eq_false] using checked

theorem pairwise_literals : literals.Pairwise fun a b => b.2.length ≤ a.2.length := by
  have sorted : literals.Pairwise fun a b => decide (b.2.length ≤ a.2.length) = true :=
    List.pairwise_mergeSort (by simp only [decide_eq_true_eq]; omega)
      (by simp only [Bool.or_eq_true, decide_eq_true_eq]; omega) spellings
  simpa using sorted

theorem name_spec (named : Lexeme.name t = some (word, rest)) :
    (∀ c ∈ word, isWordChar c = true) ∧ ∀ c ∈ rest.head?, isWordChar c = false := by
  unfold Lexeme.name at named
  split at named
  · cases named
  · next first more =>
    split at named
    · next begins =>
      simp only [Bool.and_eq_true] at begins
      cases named
      refine ⟨?_, ?_⟩
      · intro c member
        rcases List.mem_cons.mp member with rfl | later
        · exact begins.1
        · exact List.mem_takeWhile_imp later
      · intro c head
        have stops := List.head?_dropWhile_not isWordChar more
        have here : (more.dropWhile isWordChar).head? = some c := head
        rw [here] at stops
        exact stops
    · cases named

/-- A fixed text as long as the name that the text begins with is that name. -/
private theorem eq_name_of_literal {spelling : Text} (named : Lexeme.name t = some (word, rest))
    (member : (other, spelling) ∈ literals) (long : word.length ≤ spelling.length)
    (front : spelling <+: t) : spelling = word := by
  obtain ⟨some, splits⟩ := Lexeme.proper_name named
  obtain ⟨within, ends⟩ := name_spec named
  dsimp only [Lexeme.Splits] at splits
  subst splits
  obtain ⟨extra, rfl⟩ := List.prefix_of_prefix_length_le (List.prefix_append word rest) front long
  rw [List.prefix_append_right_inj] at front
  cases extra with
  | nil => exact List.append_nil word
  | cons c more =>
    obtain ⟨after, rfl⟩ := front
    rcases wordlike member with wordChars | others
    · have inside := wordChars c (by simp)
      rw [ends c rfl] at inside
      cases inside
    · obtain ⟨first, letters, rfl⟩ := List.exists_cons_of_ne_nil some
      have inside := within first List.mem_cons_self
      rw [others first rfl] at inside
      cases inside

private theorem literal_append (front after : Text) :
    Lexeme.literal front (front ++ after) = some (front, after) := by
  have begins : front.isPrefixOf (front ++ after) = true :=
    List.isPrefixOf_iff_prefix.mpr (List.prefix_append front after)
  rw [Lexeme.literal, if_pos begins, List.drop_left]

/-- Where no name is wanted, a wanted keyword is read all the same. -/
private theorem firstOf_of_keyword (named : Lexeme.name t = some (word, rest))
    (keyword : (kind, word) ∈ literals) (isWanted : wanted.contains kind = true)
    {entries : List (Terminal × Text)} (listed : ∀ entry ∈ entries, entry ∈ literals)
    (sorted : entries.Pairwise fun a b => b.2.length ≤ a.2.length)
    (member : (kind, word) ∈ entries) :
    firstOf wanted t (entries.map fun (kind, s) => (kind, Lexeme.literal s)) =
      some (kind, word, rest) := by
  have splits : word ++ rest = t := (Lexeme.proper_name named).2
  induction entries with
  | nil => cases member
  | cons entry more ih =>
    obtain ⟨k, s⟩ := entry
    obtain ⟨longer, sorted⟩ := List.pairwise_cons.mp sorted
    have long : word.length ≤ s.length := by
      rcases List.mem_cons.mp member with here | later
      · cases here
        exact Nat.le_refl _
      · exact longer _ later
    rw [List.map_cons, firstOf]
    by_cases matched : wanted.contains k = true ∧ s <+: t
    · obtain ⟨also, after, front⟩ := matched
      have entry := listed _ List.mem_cons_self
      obtain rfl := eq_name_of_literal named entry long ⟨after, front⟩
      obtain rfl := spelling_inj keyword entry
      obtain rfl := List.append_cancel_left (front.trans splits.symm)
      rw [if_pos isWanted, ← splits, literal_append]
    · have later : (kind, word) ∈ more := by
        rcases List.mem_cons.mp member with here | later
        · cases here
          exact absurd ⟨isWanted, rest, splits⟩ matched
        · exact later
      have found := ih (fun e present => listed e (List.mem_cons_of_mem _ present)) sorted later
      split
      · next also =>
        have skipped : Lexeme.literal s t = none :=
          if_neg fun front => matched ⟨also, List.isPrefixOf_iff_prefix.mp front⟩
        rw [skipped]
        exact found
      · exact found

private theorem spacing_eq_none (named : Lexeme.name t = some (word, rest)) :
    Lexeme.spacing t = none := by
  unfold Lexeme.name at named
  split at named
  · cases named
  · next c more =>
    split at named
    · next begins =>
      have apart : Lexeme.isSpacing c = false := by
        rw [Bool.and_eq_true] at begins
        by_contra spaced
        simp only [Lexeme.isSpacing, Bool.not_eq_false, Bool.or_eq_true, decide_eq_true_eq]
          at spaced
        rcases spaced with (rfl | rfl) | rfl
        all_goals exact absurd begins.1 (by decide)
      simp [Lexeme.spacing, Lexeme.run, apart]
    · cases named

private theorem spelled_literals : ∀ entry ∈ literals.map fun (kind, s) => (kind, Lexeme.literal s),
    TerminalSet.spelled.contains entry.1 = true := by
  intro entry member
  obtain ⟨⟨k, s⟩, listed, rfl⟩ := List.mem_map.mp member
  exact spelled_of_mem_literals listed

private theorem wordPiece_narrow (found : wordPiece .spelled t = .token kind lexeme rest)
    (isWanted : wanted.contains kind = true) : wordPiece wanted t = .token kind lexeme rest := by
  have name : TerminalSet.spelled.contains .name = true := by decide
  rw [wordPiece, if_pos name] at found
  rw [wordPiece]
  cases named : Lexeme.name t with
  | some reading =>
    obtain ⟨word, after⟩ := reading
    rw [named] at found
    dsimp only at found
    cases keyword : keyword? .spelled word with
    | none =>
      rw [keyword] at found
      cases found
      have isName : wanted.contains .name = true := isWanted
      simp [isName, keyword?_eq_none_narrow keyword]
    | some k =>
      rw [keyword] at found
      cases found
      by_cases names : wanted.contains .name = true
      · rw [if_pos names]
        simp [keyword?_narrow keyword isWanted]
      · have member := (keyword?_eq_some keyword).2.2
        rw [if_neg names, spacing_eq_none named]
        dsimp only
        rw [firstOf_of_keyword named member isWanted (fun _ => id) pairwise_literals member]
        rfl
  | none =>
    rw [named] at found
    rw [ite_self]
    dsimp only at found ⊢
    cases spaced : Lexeme.spacing t with
    | some reading => simp [spaced] at found
    | none =>
      rw [spaced] at found
      dsimp only at found ⊢
      split at found
      · next first =>
        cases found
        rw [firstOf_narrow spelled_literals first isWanted]
      · cases found

theorem spelled_numbersAndStrings : ∀ entry ∈ numbersAndStrings,
    TerminalSet.spelled.contains entry.1 = true := by
  intro entry member
  rw [TerminalSet.contains_spelled]
  simp only [numbersAndStrings, List.mem_cons, List.not_mem_nil, or_false] at member
  rcases member with rfl | rfl | rfl | rfl | rfl | rfl | rfl | rfl <;> decide

/-- A token that is read when everything is wanted is read when it is wanted. -/
theorem piece_narrow (found : piece .spelled t = .token kind lexeme rest)
    (isWanted : wanted.contains kind = true) : piece wanted t = .token kind lexeme rest := by
  rw [piece] at found ⊢
  split at found
  · next first =>
    cases found
    rw [firstOf_narrow spelled_numbersAndStrings first isWanted]
  · next nothing =>
    rw [firstOf_eq_none_narrow spelled_numbersAndStrings nothing]
    dsimp only at found ⊢
    split at found
    · cases found
    · exact wordPiece_narrow found isWanted

theorem piece_ignored_narrow (found : piece .spelled t = .ignored lexeme rest) :
    piece wanted t = .ignored lexeme rest := by
  rw [piece] at found ⊢
  split at found
  · cases found
  · next nothing =>
    rw [firstOf_eq_none_narrow spelled_numbersAndStrings nothing]
    dsimp only at found ⊢
    split at found
    · exact found
    · have name : TerminalSet.spelled.contains .name = true := by decide
      rw [wordPiece, if_pos name] at found
      rw [wordPiece]
      cases named : Lexeme.name t with
      | some reading => simp [named] at found
      | none =>
        rw [named] at found
        rw [ite_self]
        dsimp only at found ⊢
        split at found
        · exact found
        · split at found <;> cases found

/-- Where nothing can be read when everything is wanted, nothing can be read at all. -/
theorem piece_none_narrow (nothing : piece .spelled t = .none) : piece wanted t = .none := by
  rw [piece] at nothing ⊢
  split at nothing
  · cases nothing
  · next first =>
    rw [firstOf_eq_none_narrow spelled_numbersAndStrings first]
    dsimp only at nothing ⊢
    split at nothing
    · cases nothing
    · have name : TerminalSet.spelled.contains .name = true := by decide
      rw [wordPiece, if_pos name] at nothing
      rw [wordPiece]
      cases named : Lexeme.name t with
      | some reading => simp [named] at nothing
      | none =>
        rw [named] at nothing
        rw [ite_self]
        dsimp only at nothing ⊢
        split at nothing
        · cases nothing
        · split at nothing
          · cases nothing
          · next literal =>
            rw [firstOf_eq_none_narrow spelled_literals literal]

private theorem nextFrom_narrow {steps : Nat}
    (found : nextFrom .spelled steps c = .token token cursor)
    (isWanted : wanted.contains token.kind = true) :
    nextFrom wanted steps c = .token token cursor := by
  induction steps generalizing c with
  | zero => cases found
  | succ steps ih =>
    rw [nextFrom] at found ⊢
    split at found
    · cases found
    · next some =>
      rw [if_neg some]
      split at found
      · next first =>
        cases found
        rw [piece_narrow first isWanted]
      · next first =>
        rw [piece_ignored_narrow first]
        exact ih found
      · cases found

/-- The next token of all is the next of the wanted ones, if it is wanted. -/
theorem next_narrow (found : next .spelled c = .token token cursor)
    (isWanted : wanted.contains token.kind = true) : next wanted c = .token token cursor :=
  nextFrom_narrow found isWanted

private theorem nextFrom_finished_narrow {steps : Nat}
    (found : nextFrom .spelled steps c = .finished) : nextFrom wanted steps c = .finished := by
  induction steps generalizing c with
  | zero => cases found
  | succ steps ih =>
    rw [nextFrom] at found ⊢
    split at found
    · next empty => rw [if_pos empty]
    · next some =>
      rw [if_neg some]
      split at found
      · cases found
      · next first =>
        rw [piece_ignored_narrow first]
        exact ih found
      · cases found

theorem next_finished_narrow (found : next .spelled c = .finished) : next wanted c = .finished :=
  nextFrom_finished_narrow found

private theorem spelled_of_piece (found : piece wanted t = .token kind lexeme rest) :
    TerminalSet.spelled.contains kind = true := by
  cases readBy_of_piece found with
  | pattern _ listed => exact spelled_numbersAndStrings _ listed
  | name => exact TerminalSet.contains_spelled.mpr (by decide)
  | keyword _ _ _ listed | fixed _ _ listed => exact spelled_of_mem_literals listed

/-- Whatever is wanted, no token is read that belongs to the layout or ends the input. -/
theorem spelled_of_next (found : next wanted c = .token token cursor) :
    TerminalSet.spelled.contains token.kind = true := by
  obtain ⟨_, _, _, first, _⟩ := exists_piece_of_next found
  exact spelled_of_piece first

/-! What is sorted does not evaluate, so samples are read by fixed texts that are in order from the
outset. -/

/-- The fixed texts by their length. -/
def byLength : List (Terminal × Text) :=
  (List.range 11).reverse.flatMap fun n => spellings.filter (·.2.length = n)

set_option maxRecDepth 4000 in
theorem literals_eq : literals = byLength := by cbv

/-- The first piece of a text, by fixed texts in order. -/
def pieceBy (fixed : List (Terminal × Text)) (wanted : TerminalSet) (t : Text) : Piece :=
  match firstOf wanted t numbersAndStrings with
  | some (kind, lexeme, rest) => .token kind lexeme rest
  | none =>
    match Lexeme.continuation t with
    | some (lexeme, rest) => .ignored lexeme rest
    | none =>
      match (if wanted.contains .name then Lexeme.name t else none) with
      | some (word, rest) =>
        let keyword := fixed.find? fun (t, spelling) =>
          t.isKeyword && wanted.contains t && spelling == word
        .token ((keyword.map (·.1)).getD .name) word rest
      | none =>
        match Lexeme.spacing t with
        | some (lexeme, rest) => .ignored lexeme rest
        | none =>
          match firstOf wanted t (fixed.map fun (kind, s) => (kind, Lexeme.literal s)) with
          | some (kind, lexeme, rest) => .token kind lexeme rest
          | none => .none

theorem piece_eq : piece = pieceBy byLength := by
  rw [← literals_eq]
  rfl

/-- A text is read as the tokens, if they and what stands between them are its pieces. -/
theorem tokenizes_of_parts {text : Text} {tokens : List SourceToken}
    (whole : joined (partsFrom text 0 tokens) = text)
    (there : placed .start (partsFrom text 0 tokens) = tokens)
    (read : (fronts (partsFrom text 0 tokens)).map (pieceBy byLength wanted) =
      pieces (partsFrom text 0 tokens)) :
    Tokenizes wanted ⟨text, .start⟩ tokens := by
  have tokenizes : Tokenizes wanted ⟨joined (partsFrom text 0 tokens), .start⟩
      (placed .start (partsFrom text 0 tokens)) :=
    tokenizes_placed .start (by rw [piece_eq]; exact read)
  rwa [whole, there] at tokenizes

end VyperFront.Lexer
