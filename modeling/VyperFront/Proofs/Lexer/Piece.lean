import VyperFront.Proofs.Lexer.Head

namespace VyperFront.Lexer

open Lexeme

variable {wanted : TerminalSet} {t other : Text} {g : Text × Text → Text × Text}
  {classes : List (Terminal × Recognizer)}

/-- The piece with another lexeme and another rest. -/
def Piece.map (g : Text × Text → Text × Text) : Piece → Piece
  | .token kind lexeme rest => .token kind (g (lexeme, rest)).1 (g (lexeme, rest)).2
  | .ignored lexeme rest => .ignored (g (lexeme, rest)).1 (g (lexeme, rest)).2
  | .none => .none

/-- Whether the piece is that lexeme, and leaves the rest. -/
inductive Piece.Reads (lexeme rest : Text) : Piece → Prop
  | token : Piece.Reads lexeme rest (.token kind lexeme rest)
  | ignored : Piece.Reads lexeme rest (.ignored lexeme rest)

theorem Piece.Reads.splits {lexeme rest : Text} (reads : (piece wanted t).Reads lexeme rest) :
    lexeme ≠ [] ∧ lexeme ++ rest = t := by
  have front := frontOf_piece wanted t
  cases found : piece wanted t with
  | none =>
    rw [found] at reads
    cases reads
  | token kind other left =>
    rw [found] at reads front
    cases reads
    exact front.2
  | ignored other left =>
    rw [found] at reads front
    cases reads
    exact front

theorem Piece.map_congr {p : Piece} {g h : Text × Text → Text × Text}
    (same : ∀ {lexeme rest}, p.Reads lexeme rest → g (lexeme, rest) = h (lexeme, rest)) :
    p.map g = p.map h := by
  cases p with
  | token => rw [map, map, same .token]
  | ignored => rw [map, map, same .ignored]
  | none => rfl

theorem firstOf_append (a b : List (Terminal × Recognizer)) :
    firstOf wanted t (a ++ b) = (firstOf wanted t a).or (firstOf wanted t b) := by
  induction a with
  | nil => rfl
  | cons first more ih =>
    obtain ⟨kind, r⟩ := first
    simp only [List.cons_append, firstOf, ih]
    split
    · cases r t <;> rfl
    · rfl

theorem firstOf_map (same : ∀ entry ∈ classes,
      wanted.contains entry.1 = true → entry.2 other = (entry.2 t).map g) :
    firstOf wanted other classes =
      (firstOf wanted t classes).map fun (kind, reading) => (kind, g reading) := by
  induction classes with
  | nil => rfl
  | cons first more ih =>
    obtain ⟨kind, r⟩ := first
    obtain ⟨here, later⟩ := List.forall_mem_cons.mp same
    dsimp only at here
    rw [firstOf, firstOf, ih later]
    split
    · next isWanted =>
      rw [here isWanted]
      cases r t <;> rfl
    · rfl

/-- The classes that go before long strings. They are read within a line, numbers up to a
separator. -/
def shortClasses : List (Terminal × Recognizer) :=
  [(.floatNumber, floatNumber), (.hexNumber, hexNumber), (.binNumber, binNumber),
    (.octNumber, octNumber), (.string, string)]

theorem numbersAndStrings_eq : numbersAndStrings = shortClasses ++
    [(.longString, longString), (.decNumber, decNumber), (.newline, newline)] := rfl

variable {entry : Terminal × Recognizer}

theorem stopped_or_string (member : entry ∈ shortClasses) :
    Stopped entry.2 ∨ entry.2 = string := by
  simp only [shortClasses, List.mem_cons, List.not_mem_nil, or_false] at member
  rcases member with rfl | rfl | rfl | rfl | rfl
  · exact .inl stopped_floatNumber
  · exact .inl stopped_hexNumber
  · exact .inl stopped_binNumber
  · exact .inl stopped_octNumber
  · exact .inr rfl

theorem within_of_mem_shortClasses (member : entry ∈ shortClasses) : Within entry.2 := by
  rcases stopped_or_string member with stopped | same
  · exact stopped.within
  · rw [same]
    exact within_string

set_option maxRecDepth 10000 in
private theorem plain_spellings : Plain (spellings.map Prod.snd) := by
  decide

theorem stopped_of_mem_literals {kind : Terminal} {spelling : Text}
    (listed : (kind, spelling) ∈ literals) : Stopped (literal spelling) := by
  rw [literals, List.mem_mergeSort] at listed
  exact stopped_literal (plain_spellings spelling (List.mem_map_of_mem listed))

theorem stopped_of_mem_fixed
    (member : entry ∈ literals.map fun (kind, s) => (kind, literal s)) : Stopped entry.2 := by
  obtain ⟨_, listed, rfl⟩ := List.mem_map.mp member
  exact stopped_of_mem_literals listed

theorem proper_of_mem_fixed
    (member : entry ∈ literals.map fun (kind, s) => (kind, literal s)) : Proper entry.2 := by
  obtain ⟨⟨kind, spelling⟩, listed, rfl⟩ := List.mem_map.mp member
  exact proper_literal (spelling_ne_nil listed)

/-- Spacing and fixed texts. -/
private def spacePiece (wanted : TerminalSet) (t : Text) : Piece :=
  match spacing t with
  | some (lexeme, rest) => .ignored lexeme rest
  | none =>
    match firstOf wanted t (literals.map fun (kind, s) => (kind, literal s)) with
    | some (kind, lexeme, rest) => .token kind lexeme rest
    | none => .none

private theorem wordPiece_eq (wanted : TerminalSet) (t : Text) : wordPiece wanted t =
    match (if wanted.contains .name then Lexeme.name t else none) with
    | some (word, rest) => .token ((keyword? wanted word).getD .name) word rest
    | none => spacePiece wanted t := rfl

/-- How the text is changed for the recognizers, but for that of long strings. -/
structure Changes (t other : Text) (g : Text × Text → Text × Text) : Prop where
  stopped : ∀ {r : Recognizer}, Stopped r → Proper r → r other = (r t).map g
  spacing : spacing other = (spacing t).map g
  string : string other = (string t).map g
  newline : newline other = (newline t).map g
  continuation : continuation other = (continuation t).map g
  name : ∀ {reading}, name t = some reading → (g reading).1 = reading.1

namespace Changes

private theorem spacePiece (changes : Changes t other g) (wanted : TerminalSet) :
    spacePiece wanted other = (spacePiece wanted t).map g := by
  have fixed := @firstOf_map wanted _ _ _ _
    fun _ member _ => changes.stopped (stopped_of_mem_fixed member) (proper_of_mem_fixed member)
  rw [Lexer.spacePiece, Lexer.spacePiece, changes.spacing, fixed]
  cases Lexeme.spacing t with
  | some reading => rfl
  | none => cases firstOf wanted t (literals.map fun (kind, s) => (kind, literal s)) <;> rfl

theorem wordPiece (changes : Changes t other g) (wanted : TerminalSet) :
    wordPiece wanted other = (wordPiece wanted t).map g := by
  have others := changes.spacePiece wanted
  rw [wordPiece_eq, wordPiece_eq, changes.stopped stopped_name proper_name]
  cases wanted.contains .name with
  | false => exact others
  | true =>
    cases named : Lexeme.name t with
    | none => exact others
    | some reading => simp [Piece.map, changes.name named]

/-- The lexer reads what the recognizers do. -/
theorem piece (changes : Changes t other g)
    (long : wanted.contains .longString = true → longString other = (longString t).map g) :
    piece wanted other = (piece wanted t).map g := by
  have classes : ∀ entry ∈ numbersAndStrings,
      wanted.contains entry.1 = true → entry.2 other = (entry.2 t).map g := by
    intro entry member isWanted
    have proper : Proper entry.2 := proper_numbersAndStrings member
    rw [numbersAndStrings_eq, List.mem_append] at member
    rcases member with short | others
    · rcases stopped_or_string short with stopped | same
      · exact changes.stopped stopped proper
      · rw [same]
        exact changes.string
    · simp only [List.mem_cons, List.not_mem_nil, or_false] at others
      rcases others with rfl | rfl | rfl
      · exact long isWanted
      · exact changes.stopped stopped_decNumber proper
      · exact changes.newline
  rw [Lexer.piece, Lexer.piece, firstOf_map classes, changes.continuation, changes.wordPiece]
  cases firstOf wanted t numbersAndStrings with
  | some first => rfl
  | none => cases Lexeme.continuation t <;> rfl

end Changes

end VyperFront.Lexer
