import VyperFront.Proofs.Lexer.Skip
import VyperFront.Proofs.Lexer.Wanted

namespace VyperFront.Lexer

variable {wanted other : TerminalSet} {t lexeme rest word spelling : Text} {kind : Terminal}
  {classes : List (Terminal × Recognizer)} {c after : Cursor} {token : SourceToken}

theorem firstOf_agree (agree : ∀ entry ∈ classes,
      other.contains entry.1 = wanted.contains entry.1 ∨ entry.2 t = none) :
    firstOf other t classes = firstOf wanted t classes := by
  induction classes with
  | nil => rfl
  | cons first more ih =>
    obtain ⟨kind, r⟩ := first
    obtain ⟨here, later⟩ := List.forall_mem_cons.mp agree
    rw [firstOf, firstOf, ih later]
    rcases here with same | nothing
    · rw [same]
    · dsimp only at nothing
      rw [nothing]
      simp

theorem keyword?_agree (agree : ∀ kind, kind.isKeyword = true → (kind, word) ∈ literals →
      other.contains kind = wanted.contains kind) :
    keyword? other word = keyword? wanted word := by
  ext kind
  rw [keyword?_eq_some_iff, keyword?_eq_some_iff]
  refine and_congr_right fun keyword => ?_
  constructor
  · rintro ⟨isWanted, member⟩
    exact ⟨agree kind keyword member ▸ isWanted, member⟩
  · rintro ⟨isWanted, member⟩
    exact ⟨(agree kind keyword member).symm ▸ isWanted, member⟩

private theorem spelled_keywords : (spellings.all fun (kind, spelling) =>
    !kind.isKeyword || spelling.head?.any fun c => isWordChar c && !isDecimalDigit c) = true := by
  decide

theorem literal_eq_none_of_keyword (member : (kind, spelling) ∈ literals)
    (keyword : kind.isKeyword = true) (nameless : Lexeme.name t = none) :
    Lexeme.literal spelling t = none := by
  rw [literals, List.mem_mergeSort] at member
  have checked := List.all_eq_true.mp spelled_keywords _ member
  simp only [keyword, Bool.not_true, Bool.false_or] at checked
  rw [Option.any_eq_true] at checked
  obtain ⟨c, head, letter⟩ := checked
  obtain ⟨more, rfl⟩ := List.head?_eq_some_iff.mp head
  apply if_neg
  intro front
  obtain ⟨rest, rfl⟩ := List.isPrefixOf_iff_prefix.mp front
  rw [List.cons_append, Lexeme.name, if_pos letter] at nameless
  cases nameless

/-- A fixed text stays one where no name is read, even if it is a keyword. -/
private theorem firstOf_literals_agree (nameless : wanted.contains .name = false ∨
      Lexeme.name t = none)
    (agree : ∀ k, TerminalSet.spelled.contains k = true →
      k.isKeyword = false ∨ wanted.contains .name = false →
      other.contains k = wanted.contains k) :
    firstOf other t (literals.map fun (kind, s) => (kind, Lexeme.literal s)) =
      firstOf wanted t (literals.map fun (kind, s) => (kind, Lexeme.literal s)) := by
  apply firstOf_agree
  intro entry member
  obtain ⟨⟨k, spelling⟩, listed, rfl⟩ := List.mem_map.mp member
  have spelled := spelled_of_mem_literals listed
  cases keyword : k.isKeyword with
  | false => exact .inl (agree k spelled (.inl keyword))
  | true =>
    rcases nameless with unwanted | none
    · exact .inl (agree k spelled (.inr unwanted))
    · exact .inr (literal_eq_none_of_keyword listed keyword none)

private theorem wordPiece_agree (found : wordPiece wanted t = .token kind lexeme rest)
    (agree : ∀ k, TerminalSet.spelled.contains k = true →
      k.isKeyword = false ∨ wanted.contains .name = false ∨ (k, lexeme) ∈ literals →
      other.contains k = wanted.contains k) : wordPiece other t = .token kind lexeme rest := by
  have names : other.contains .name = wanted.contains .name :=
    agree .name (TerminalSet.contains_spelled.mpr (by decide)) (.inl rfl)
  have fixed (nameless : wanted.contains .name = false ∨ Lexeme.name t = none) :=
    firstOf_literals_agree nameless fun k spelled unnamed =>
      agree k spelled (unnamed.imp id .inl)
  rw [wordPiece] at found ⊢
  rw [names]
  cases isName : wanted.contains .name with
  | false =>
    rw [isName] at found
    rw [fixed (.inl isName)]
    exact found
  | true =>
    rw [isName] at found
    cases named : Lexeme.name t with
    | none =>
      rw [named] at found
      rw [fixed (.inr named)]
      exact found
    | some reading =>
      simp only [named, if_true] at found ⊢
      rw [keyword?_agree, found]
      intro k _ member
      refine agree k (spelled_of_mem_literals member) (.inr (.inr ?_))
      cases found
      exact member

/-- A token is read when others are wanted, too, if the same fixed texts and classes are, but
for keywords other than the token. -/
theorem piece_agree (found : piece wanted t = .token kind lexeme rest)
    (agree : ∀ k, TerminalSet.spelled.contains k = true →
      k.isKeyword = false ∨ wanted.contains .name = false ∨ (k, lexeme) ∈ literals →
      other.contains k = wanted.contains k) : piece other t = .token kind lexeme rest := by
  have classes : firstOf other t numbersAndStrings = firstOf wanted t numbersAndStrings := by
    apply firstOf_agree
    intro entry member
    left
    simp only [numbersAndStrings, List.mem_cons, List.not_mem_nil, or_false] at member
    rcases member with rfl | rfl | rfl | rfl | rfl | rfl | rfl | rfl
    all_goals exact agree _ (TerminalSet.contains_spelled.mpr (by decide)) (.inl rfl)
  rw [piece] at found ⊢
  rw [classes]
  cases first : firstOf wanted t numbersAndStrings with
  | some reading =>
    rw [first] at found
    exact found
  | none =>
    rw [first] at found
    dsimp only at found ⊢
    cases continued : Lexeme.continuation t with
    | some reading =>
      rw [continued] at found
      cases found
    | none =>
      rw [continued] at found
      exact wordPiece_agree found agree

theorem next_agree (found : next wanted c = .token token after)
    (agree : ∀ k, TerminalSet.spelled.contains k = true →
      k.isKeyword = false ∨ wanted.contains .name = false ∨ (k, token.text) ∈ literals →
      other.contains k = wanted.contains k) : next other c = .token token after := by
  obtain ⟨skipped, rest, skips, first, place, stop⟩ := next_eq_token_iff.mp found
  exact next_eq_token_iff.mpr ⟨skipped, rest, skips, piece_agree first agree, place, stop⟩

end VyperFront.Lexer
