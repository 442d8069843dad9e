import VyperFront.Proofs.Lexer.Head
import VyperFront.Proofs.Token

/-! How the lexer comes to its next token: it skips what is ignored, which is the same in
every state, and then reads a piece. The places of a token are those of the text before it, so
tokens are read alike wherever the text stands. -/

namespace VyperFront

namespace Lexer

open Lexeme

/-- What is ignored at the front of a text, and what is left then. -/
inductive Skips : Text → Text → Text → Prop where
  | nil : Skips t [] t
  | cons (ignored : Ignored t lexeme left) (skips : Skips left skipped rest) :
    Skips t (lexeme ++ skipped) rest

variable {wanted other : TerminalSet} {t front skipped rest lexeme left : Text} {c after : Cursor}
  {kind : Terminal} {token : SourceToken} {d : Char}

theorem Ignored.splits (ignored : Ignored t lexeme rest) : lexeme ≠ [] ∧ lexeme ++ rest = t := by
  rcases ignored with continued | spaced
  · exact proper_continuation continued
  · exact proper_spacing spaced

theorem Skips.splits (skips : Skips t skipped rest) : skipped ++ rest = t := by
  induction skips with
  | nil => rfl
  | cons ignored _ ih => rw [List.append_assoc, ih, ignored.splits.2]

/-- What is ignored before a character is ignored whatever comes after that character. -/
theorem Ignored.closed (ignored : Ignored t lexeme (d :: rest)) (more : Text) :
    Ignored (lexeme ++ d :: more) lexeme (d :: more) :=
  ignored.imp (continuation_closed · _) fun spaced => by
    obtain ⟨-, some, blank, solid⟩ := spacing_eq_some_iff.mp spaced
    exact spacing_eq_some_iff.mpr ⟨rfl, some, blank, solid⟩

theorem Skips.closed (skips : Skips t skipped left) (same : left = d :: rest) (more : Text) :
    Skips (skipped ++ d :: more) skipped (d :: more) := by
  induction skips with
  | nil => exact .nil
  | @cons t lexeme left skipped _ ignored skips ih =>
    have splits := skips.splits
    rw [same] at splits
    rw [List.append_assoc]
    refine .cons ?_ (ih same)
    subst splits
    cases skipped <;> exact ignored.closed _

theorem Skips.spaced (skips : Skips t skipped rest) (solid : Solid rest) {blanks : Text}
    (blank : ∀ c ∈ blanks, isSpacing c = true) : Skips (blanks ++ t) (blanks ++ skipped) rest := by
  by_cases empty : blanks = []
  · rwa [empty]
  cases skips with
  | nil => exact .cons (.inr (spacing_eq_some_iff.mpr ⟨rfl, empty, blank, solid⟩)) .nil
  | cons ignored later =>
    rcases ignored with continued | spaced
    · obtain ⟨after, rfl⟩ := exists_of_continuation continued
      have begins : Solid ('\\' :: after) := by simp [Solid, isSpacing]
      have first := spacing_eq_some_iff.mpr ⟨rfl, empty, blank, begins⟩
      exact .cons (.inr first) (.cons (.inl continued) later)
    · obtain ⟨rfl, _, also, solid⟩ := spacing_eq_some_iff.mp spaced
      rw [← List.append_assoc, ← List.append_assoc]
      refine .cons (.inr (spacing_eq_some_iff.mpr ⟨rfl, ?_, ?_, solid⟩)) later
      · simp [empty]
      · exact List.forall_mem_append.mpr ⟨blank, also⟩

theorem Skips.append {more : Text} (first : Skips t front left) (skips : Skips more skipped rest)
    (solid : Solid rest) : Skips (front ++ more) (front ++ skipped) rest := by
  induction first with
  | nil => exact skips
  | cons ignored _ ih =>
    rw [List.append_assoc, List.append_assoc]
    rcases ignored with continued | spaced
    · exact .cons (.inl (continuation_closed continued _)) ih
    · exact ih.spaced solid (spacing_eq_some_iff.mp spaced).2.2.1

theorem next_of_nil (empty : c.rest = []) : next wanted c = .finished := by
  rw [next, nextFrom, empty]
  rfl

theorem next_of_none (some : c.rest ≠ []) (nothing : piece wanted c.rest = .none) :
    next wanted c = .stuck c := by
  rw [next, nextFrom, if_neg (mt List.isEmpty_iff.mp some), nothing]

theorem exists_piece (goes : ∃ other, ∀ cursor, next other c ≠ .stuck cursor)
    (some : c.rest ≠ []) : ∃ other, piece other c.rest ≠ .none := by
  obtain ⟨other, moves⟩ := goes
  exact ⟨other, fun nothing => moves c (next_of_none some nothing)⟩

/-- What the lexer comes to from a cursor on. -/
theorem next_cases (wanted : TerminalSet) (c : Cursor) :
    ∃ skipped rest, Skips c.rest skipped rest ∧
      next wanted c = next wanted ⟨rest, c.place.advance skipped⟩ ∧
      ∀ lexeme left, piece wanted rest ≠ .ignored lexeme left := by
  induction same : c.rest.length using Nat.strong_induction_on generalizing c with
  | _ length ih =>
    cases first : piece wanted c.rest with
    | token kind lexeme left =>
      exact ⟨[], c.rest, .nil, rfl, by simp [first]⟩
    | none => exact ⟨[], c.rest, .nil, rfl, by simp [first]⟩
    | ignored lexeme left =>
      have ignored := piece_eq_ignored_iff.mp first
      obtain ⟨some, splits⟩ := ignored.splits
      have shorter : left.length < length := by
        have whole := congrArg List.length splits
        have := List.length_pos_iff.mpr some
        rw [List.length_append] at whole
        omega
      obtain ⟨skipped, rest, skips, same, stops⟩ :=
        ih _ shorter ⟨left, c.place.advance lexeme⟩ rfl
      refine ⟨lexeme ++ skipped, rest, .cons ignored skips, ?_, stops⟩
      rw [next_of_ignored first, same, Place.advance_append]

/-- Where nothing is ignored there is a token, or the text is over, or nothing can be read. -/
private theorem next_of_not_ignored (stops : ∀ lexeme left, piece wanted rest ≠ .ignored lexeme left)
    (p : Place) :
    (∃ kind lexeme left, piece wanted rest = .token kind lexeme left ∧
      next wanted ⟨rest, p⟩ =
        .token ⟨kind, lexeme, ⟨p, p.advance lexeme⟩⟩ ⟨left, p.advance lexeme⟩) ∨
    (rest = [] ∧ next wanted ⟨rest, p⟩ = .finished) ∨
    (rest ≠ [] ∧ piece wanted rest = .none ∧ next wanted ⟨rest, p⟩ = .stuck ⟨rest, p⟩) := by
  by_cases empty : rest = []
  · exact .inr (.inl ⟨empty, next_of_nil empty⟩)
  · cases first : piece wanted rest with
    | token kind lexeme left =>
      exact .inl ⟨kind, lexeme, left, rfl, next_of_token (c := ⟨rest, p⟩) first⟩
    | ignored lexeme left => exact absurd first (stops lexeme left)
    | none => exact .inr (.inr ⟨empty, rfl, next_of_none (c := ⟨rest, p⟩) empty first⟩)

theorem Skips.next (skips : Skips t skipped rest) (wanted : TerminalSet) (p : Place) :
    next wanted ⟨t, p⟩ = next wanted ⟨rest, p.advance skipped⟩ := by
  induction skips generalizing p with
  | nil => rfl
  | cons ignored _ ih =>
    rw [next_of_ignored (c := ⟨_, p⟩) (piece_eq_ignored_iff.mpr ignored), ih, Place.advance_append]

theorem Skips.next_space (skips : Skips t skipped left) (wanted : TerminalSet) (p : Place)
    (rest : Text) :
    Lexer.next wanted ⟨skipped ++ ' ' :: rest, p⟩ =
      Lexer.next wanted ⟨rest, p.advance (skipped ++ [' '])⟩ := by
  obtain ⟨more, final, later, same, stops⟩ :=
    next_cases wanted ⟨rest, p.advance (skipped ++ [' '])⟩
  have solid : Solid final := solid_of_spacing <| Option.eq_none_iff_forall_ne_some.mpr
    fun reading spaced => stops _ _ (piece_eq_ignored_iff.mpr (.inr spaced))
  have space : ∀ c ∈ [' '], isSpacing c = true := by simp [isSpacing]
  have whole := skips.append (later.spaced solid space) solid
  have split : skipped ++ ([' '] ++ more) = (skipped ++ [' ']) ++ more := by simp
  rw [same, ← Place.advance_append, ← split]
  exact whole.next wanted p

/-- The next token is the piece after what is skipped. -/
theorem next_eq_token_iff :
    next wanted c = .token token after ↔
      ∃ skipped rest, Skips c.rest skipped rest ∧
        piece wanted rest = .token token.kind token.text after.rest ∧
        token.place = ⟨c.place.advance skipped, c.place.advance (skipped ++ token.text)⟩ ∧
        after.place = c.place.advance (skipped ++ token.text) := by
  constructor
  · intro found
    obtain ⟨skipped, rest, skips, same, stops⟩ := next_cases wanted c
    rw [same] at found
    rcases next_of_not_ignored stops (c.place.advance skipped) with
      ⟨kind, lexeme, left, first, here⟩ | ⟨_, here⟩ | ⟨_, _, here⟩
    · cases here.symm.trans found
      exact ⟨skipped, rest, skips, first, by simp [Place.advance_append]⟩
    · cases here.symm.trans found
    · cases here.symm.trans found
  · rintro ⟨skipped, rest, skips, first, place, stop⟩
    obtain ⟨kind, lexeme, extent⟩ := token
    obtain ⟨left, final⟩ := after
    dsimp only at place stop
    rw [show c = ⟨c.rest, c.place⟩ from rfl, skips.next, next_of_token (c := ⟨rest, _⟩) first]
    simp [place, stop, Place.advance_append]

theorem next_eq_finished_iff :
    next wanted c = .finished ↔ ∃ skipped, Skips c.rest skipped [] := by
  constructor
  · intro found
    obtain ⟨skipped, rest, skips, same, stops⟩ := next_cases wanted c
    rw [same] at found
    rcases next_of_not_ignored stops (c.place.advance skipped) with
      ⟨_, _, _, _, here⟩ | ⟨empty, _⟩ | ⟨_, _, here⟩
    · cases here.symm.trans found
    · exact ⟨skipped, empty ▸ skips⟩
    · cases here.symm.trans found
  · rintro ⟨skipped, skips⟩
    rw [show c = ⟨c.rest, c.place⟩ from rfl, skips.next, next_of_nil rfl]

/-- Where the lexer is stuck, nothing can be read after what is skipped. -/
theorem exists_skips_of_stuck (stuck : next wanted c = .stuck after) :
    ∃ skipped, Skips c.rest skipped after.rest ∧ after.rest ≠ [] ∧
      piece wanted after.rest = .none ∧ after.place = c.place.advance skipped := by
  obtain ⟨skipped, rest, skips, same, stops⟩ := next_cases wanted c
  rw [same] at stuck
  rcases next_of_not_ignored stops (c.place.advance skipped) with
    ⟨_, _, _, _, here⟩ | ⟨_, here⟩ | ⟨some, first, here⟩
  · cases here.symm.trans stuck
  · cases here.symm.trans stuck
  · cases here.symm.trans stuck
    exact ⟨skipped, skips, some, first, rfl⟩

theorem next_of_stuck (stuck : next wanted c = .stuck after) : next wanted after = .stuck after := by
  obtain ⟨_, _, some, first, _⟩ := exists_skips_of_stuck stuck
  exact next_of_none some first

/-- Where the text ends does not depend on what is wanted. -/
theorem next_finished_of_finished (found : next wanted c = .finished) (p : Place) :
    next other ⟨c.rest, p⟩ = .finished := by
  obtain ⟨skipped, skips⟩ := next_eq_finished_iff.mp found
  exact next_eq_finished_iff.mpr ⟨skipped, skips⟩

/-- The cursor at another place. -/
def Cursor.move (f : Place → Place) (c : Cursor) : Cursor := ⟨c.rest, f c.place⟩

theorem next_move {f : Place → Place} (moves : c.place.Moves f)
    (found : next wanted c = .token token after) :
    next wanted (c.move f) = .token ((Recast.move f).token token) (after.move f) ∧
      after.place.Moves f := by
  obtain ⟨skipped, rest, skips, first, place, stop⟩ := next_eq_token_iff.mp found
  refine ⟨next_eq_token_iff.mpr ⟨skipped, rest, skips, first, ?_, ?_⟩, ?_⟩
  · have start := moves skipped
    have stop := moves (skipped ++ token.text)
    rw [Recast.place_token, place, Extent.map]
    exact congr (congrArg Extent.mk start) stop
  · rw [Cursor.move, stop]
    exact moves (skipped ++ token.text)
  · rw [stop]
    exact moves.advance _

end Lexer

end VyperFront
