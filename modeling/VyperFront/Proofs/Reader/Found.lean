import VyperFront.Proofs.Layout.Order
import VyperFront.Proofs.Lexer
import VyperFront.Proofs.Reader
import VyperFront.Proofs.Text.Place

namespace VyperFront

/-- Whether the token is a part of the text, the one that its place says. -/
def Token.FoundIn (text : Text) (t : Token κ Extent) : Prop :=
  t.text ≠ [] ∧ ∃ before after, text = before ++ t.text ++ after ∧
    t.place = ⟨Place.start.advance before, Place.start.advance (before ++ t.text)⟩

variable {text : Text}

namespace Token.FoundIn

variable {t : Token κ Extent}

theorem placed (found : t.FoundIn text) : t.place.In text := by
  obtain ⟨some, before, after, rfl, same⟩ := found
  rw [same]
  refine ⟨⟨before, by simp, rfl⟩, ⟨before ++ t.text, by simp, rfl⟩, ?_⟩
  have := List.length_pos_iff.mpr some
  simp only [Place.offset_advance, List.length_append]
  omega

theorem slice_eq (found : t.FoundIn text) :
    text.slice t.place.start.offset t.place.stop.offset = t.text := by
  obtain ⟨_, before, after, rfl, same⟩ := found
  simp [same, Text.slice, Place.offset_advance, Place.start]

end Token.FoundIn

namespace Lexer

variable {wanted : TerminalSet} {c after : Cursor} {t : SourceToken}

/-- Whether the cursor is in the text: a front of it has been read. -/
def Cursor.In (text : Text) (c : Cursor) : Prop :=
  ∃ before, text = before ++ c.rest ∧ c.place = Place.start.advance before

theorem Cursor.in_start (text : Text) : Cursor.In text ⟨text, .start⟩ := ⟨[], rfl, rfl⟩

theorem Cursor.In.pass {rest lexeme : Text} (here : c.In text) (splits : lexeme ++ rest = c.rest) :
    Cursor.In text ⟨rest, c.place.advance lexeme⟩ := by
  obtain ⟨before, rfl, place⟩ := here
  exact ⟨before ++ lexeme, by simp [← splits], by rw [place, Place.advance_append]⟩

/-- A token that is read is found in the text, and the lexer goes on where it ends. -/
theorem next_found (here : c.In text) (read : next wanted c = .token t after) :
    t.FoundIn text ∧ c.place.offset ≤ t.place.start.offset ∧ after.place = t.place.stop ∧
      after.In text := by
  obtain ⟨skipped, rest, passes, first, place, stop⟩ := exists_piece_of_next read
  obtain ⟨some, splits⟩ := (readBy_of_piece first).splits
  obtain ⟨before, whole, start⟩ := here
  have all : text = before ++ skipped ++ t.text ++ after.rest := by
    rw [whole, ← passes, ← splits]
    simp
  have at_ : t.place = ⟨Place.start.advance (before ++ skipped),
      Place.start.advance (before ++ skipped ++ t.text)⟩ := by
    rw [place, start, ← Place.advance_append, ← Place.advance_append, List.append_assoc]
  refine ⟨⟨some, before ++ skipped, after.rest, all, at_⟩, ?_, stop, ?_⟩
  · rw [place, Place.offset_advance]
    exact Nat.le_add_right ..
  · exact ⟨before ++ skipped ++ t.text, all, by rw [stop, at_]⟩

end Lexer

/-! Where the tokens of a reading are found: in the text, one after the other. What the
layout adds to them stands at their places. -/

open Layout

/-- Tokens as they come out of the layout. All have places in the text; those that are read
there are parts of it, and each ends before the next begins. -/
structure Laid (text : Text) (tokens : List SourceToken) : Prop where
  placed : ∀ t ∈ tokens, t.place.In text
  found : ∀ t ∈ tokens, ¬ Added t → t.FoundIn text
  ordered : tokens.Pairwise Precedes

variable {tokens more : List SourceToken} {t : SourceToken}

namespace Laid

theorem sublist (laid : Laid text tokens) (part : more.Sublist tokens) : Laid text more where
  placed t member := laid.placed t (part.subset member)
  found t member := laid.found t (part.subset member)
  ordered := laid.ordered.sublist part

theorem scan (w : TabWidth) (found : ∀ t ∈ tokens, t.FoundIn text)
    (ordered : tokens.Pairwise Token.Before) : Laid text (tokensOf (scan w tokens)) where
  placed t member := by
    rcases mem_scanFrom member with inside | ⟨_, none | ⟨u, inside, same⟩⟩
    · exact (found t inside).placed
    · cases none
    · exact same ▸ (found u inside).placed
  found t member real := by
    rcases mem_scanFrom member with inside | ⟨added, _⟩
    · exact found t inside
    · exact absurd added real
  ordered := pairwise_scanFrom ordered fun t member => (found t member).placed.forward.le

end Laid

namespace Reading

variable {r : Reading} {c : Lexer.Cursor} {s : Layout.State} {p : Progress}

theorem Tokenizes.found (tokenizes : r.Tokenizes c s p tokens) (here : c.In text) :
    (∀ t ∈ tokens, t.FoundIn text ∧ c.place.offset ≤ t.place.start.offset) ∧
      tokens.Pairwise Token.Before := by
  induction tokenizes with
  | done => exact ⟨nofun, .nil⟩
  | more read _ _ ih =>
    obtain ⟨found, later, goes, next⟩ := Lexer.next_found here read
    obtain ⟨rest, ordered⟩ := ih next
    rw [goes] at rest
    have forward := found.placed.forward
    refine ⟨List.forall_mem_cons.mpr ⟨⟨found, later⟩, fun u member => ?_⟩,
      .cons (fun u member => (rest u member).2) ordered⟩
    have := (rest u member).2
    exact ⟨(rest u member).1, by omega⟩

/-- What the layout makes of the tokens of a text is laid out in the text. -/
theorem Reads.laid (reads : r.Reads text tokens) (w : TabWidth) :
    Laid text (tokensOf (Layout.scan w tokens)) := by
  obtain ⟨found, ordered⟩ := Tokenizes.found reads (Lexer.Cursor.in_start text)
  exact .scan w (fun t member => (found t member).1) ordered

end Reading

end VyperFront
