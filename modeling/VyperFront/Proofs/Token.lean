import Mathlib.Data.List.Induction
import VyperFront.Lexer

namespace VyperFront

namespace Place

/-- The place with more characters and lines before it, in the same column. -/
def shift (characters lines : Nat) (p : Place) : Place :=
  ⟨p.offset + characters, p.line + lines, p.column⟩

theorem advance_shift (characters lines : Nat) (p : Place) (t : Text) :
    (p.shift characters lines).advance t = (p.advance t).shift characters lines := by
  induction t generalizing p with
  | nil => rfl
  | cons c rest ih =>
    have step : (p.shift characters lines).next c = (p.next c).shift characters lines := by
      unfold next
      split <;> simp [shift] <;> omega
    simp only [advance, List.foldl_cons] at ih ⊢
    rw [step, ih]

/-- The places from here on are moved as one: the same text leads from the one to the other. -/
def Moves (f : Place → Place) (p : Place) : Prop := ∀ t, f (p.advance t) = (f p).advance t

theorem Moves.advance {f : Place → Place} {p : Place} (moves : Moves f p) (t : Text) :
    Moves f (p.advance t) := by
  intro more
  rw [← advance_append, moves, advance_append, moves]

theorem moves_shift (characters lines : Nat) (p : Place) : Moves (shift characters lines) p :=
  fun t => (advance_shift characters lines p t).symm

/-- The place without so many characters and lines before it. -/
def unshift (characters lines : Nat) (p : Place) : Place :=
  ⟨p.offset - characters, p.line - lines, p.column⟩

theorem unshift_shift (characters lines : Nat) (p : Place) :
    (p.shift characters lines).unshift characters lines = p := by
  simp [shift, unshift]

theorem moves_unshift (characters lines : Nat) (p : Place) :
    Moves (unshift characters lines) (p.shift characters lines) := by
  intro t
  rw [advance_shift, unshift_shift, unshift_shift]

/-- Where a place after `p` is if `p` comes to be `q`. In the line of `p` the columns move along. -/
def rebase (p q x : Place) : Place :=
  ⟨x.offset - p.offset + q.offset, x.line - p.line + q.line,
    if x.line = p.line then x.column - p.column + q.column else x.column⟩

private theorem rebase_advance_aux (p q : Place) (t : Text) :
    rebase p q (p.advance t) = q.advance t ∧
      ((p.advance t).line = p.line → p.column ≤ (p.advance t).column) := by
  induction t using List.reverseRecOn with
  | nil => simp [rebase, advance]
  | append_singleton t c ih =>
    obtain ⟨same, columns⟩ := ih
    have lines := line_advance p t
    have offsets := offset_advance p t
    rw [advance_append, advance_append, ← same]
    generalize p.advance t = here at lines offsets columns
    by_cases feed : c = '\n'
    · simp [rebase, advance, next, feed]
      omega
    · simp [rebase, advance, next, feed]
      split <;> simp_all <;> omega

theorem rebase_self (p q : Place) : rebase p q p = q := (rebase_advance_aux p q []).1

theorem moves_rebase (p q : Place) : Moves (rebase p q) p := by
  intro t
  rw [rebase_self, (rebase_advance_aux p q t).1]

/-- After a line feed it does not count how far along its line the text before it was. -/
theorem advance_feed (p : Place) (t : Text) :
    p.advance (t ++ ['\n']) = ⟨p.offset + t.length + 1, p.line + t.count '\n' + 1, 1⟩ := by
  have offset := offset_advance p t
  have line := line_advance p t
  rw [advance_append, ← offset, ← line]
  rfl

end Place

namespace Extent

variable {f : Place → Place}

def map (f : Place → Place) (e : Extent) : Extent := ⟨f e.start, f e.stop⟩

theorem span?_map (extents : List Extent) :
    span? (extents.map (map f)) = (span? extents).map (map f) := by
  cases extents with
  | nil => rfl
  | cons first rest =>
    have last : (rest.map (map f)).getLastD (map f first) = map f (rest.getLastD first) := by
      simp only [List.getLastD_eq_getLast?, List.getLast?_map]
      cases rest.getLast? <;> rfl
    simp only [List.map_cons, span?, last, Option.map_some]
    rfl

end Extent

/-- The token with another text and another place. -/
def Token.map (f : Text → Text) (g : π → π') (t : Token κ π) : Token κ π' :=
  ⟨t.kind, f t.text, g t.place⟩

/-- How tokens of the same kinds come about from others. -/
structure Recast where
  text : Text → Text
  place : Place → Place

namespace Recast

def token (m : Recast) : SourceToken → SourceToken := Token.map m.text (Extent.map m.place)

/-- The same tokens at other places. -/
def move (f : Place → Place) : Recast := ⟨id, f⟩

/-- Nothing left of the tokens but their kinds. -/
def bare : Recast := ⟨fun _ => [], fun _ => default⟩

@[simp] theorem kind_token (m : Recast) (t : SourceToken) : (m.token t).kind = t.kind := rfl

@[simp] theorem place_token (m : Recast) (t : SourceToken) :
    (m.token t).place = t.place.map m.place := rfl

end Recast

end VyperFront
