import VyperFront.Text.Basic

namespace VyperFront

/-- A place between two characters: how many characters are before it, and its
line and column, both counted from one. -/
structure Place where
  offset : Nat
  line : Nat
  column : Nat
  deriving DecidableEq, Repr, Inhabited

namespace Place

def start : Place := ⟨0, 1, 1⟩

/-- The place past a character. Only a line feed begins a new line. -/
def next (p : Place) (c : Char) : Place :=
  if c = '\n' then ⟨p.offset + 1, p.line + 1, 1⟩ else ⟨p.offset + 1, p.line, p.column + 1⟩

/-- The place past a text. -/
def advance (p : Place) (t : Text) : Place := t.foldl next p

theorem advance_append (p : Place) (a b : Text) :
    p.advance (a ++ b) = (p.advance a).advance b :=
  List.foldl_append ..

theorem offset_advance (p : Place) (t : Text) :
    (p.advance t).offset = p.offset + t.length := by
  induction t generalizing p with
  | nil => rfl
  | cons c rest ih =>
    have h : (p.next c).offset = p.offset + 1 := by
      unfold next
      split <;> rfl
    simp only [advance, List.foldl_cons, List.length_cons] at ih ⊢
    rw [ih, h]
    omega

theorem line_advance (p : Place) (t : Text) :
    (p.advance t).line = p.line + t.count '\n' := by
  induction t generalizing p with
  | nil => rfl
  | cons c rest ih =>
    simp only [advance, List.foldl_cons] at ih ⊢
    rw [ih]
    by_cases h : c = '\n'
    · simp [next, h]
      omega
    · simp [next, h]

end Place

/-- A stretch of a text. -/
structure Extent where
  start : Place
  stop : Place
  deriving DecidableEq, Repr, Inhabited

/-- Places of tokens that may tell on which line the token ends. -/
class HasEndLine (π : Type) where
  endLine : π → Option Int

instance : HasEndLine Extent := ⟨fun e => some e.stop.line⟩

namespace Extent

/-- From the start of the first extent to the end of the last. -/
def span? : List Extent → Option Extent
  | [] => none
  | first :: rest => some ⟨first.start, (rest.getLastD first).stop⟩

end Extent

end VyperFront
