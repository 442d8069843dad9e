import VyperFront.Proofs.Layout
import VyperFront.Proofs.Token
import VyperFront.Reader.Basic

namespace VyperFront

/-- The texts of recast tokens look the same to the layout. -/
structure Recast.Keeps (m : Recast) : Prop where
  empty : m.text [] = []
  breaks (t : Text) : '\n' ∈ m.text t ↔ '\n' ∈ t
  lastLine (t : Text) : Text.lastLine (m.text t) = m.text (Text.lastLine t)
  width (w : TabWidth) (t : Text) :
    w.measure (m.text (Text.lastLine t)) = w.measure (Text.lastLine t)

theorem Recast.keeps_move (f : Place → Place) : (move f).Keeps :=
  ⟨rfl, fun _ => Iff.rfl, fun _ => rfl, fun _ _ => rfl⟩

namespace Layout

/-- The same event for recast tokens. -/
def Event.recast (m : Recast) : Event Terminal Extent → Event Terminal Extent
  | .token t => .token (m.token t)
  | .note n => .note n
  | .fail e => .fail ⟨e.column, e.expected, e.place.map m.place⟩

variable {m : Recast} {w : TabWidth} {s : State} {t : SourceToken} {tokens : List SourceToken}
  {events : List (Event Terminal Extent)} {last : Option Extent}

@[simp] theorem tokensOf_recast :
    tokensOf (events.map (Event.recast m)) = (tokensOf events).map m.token := by
  induction events with
  | nil => rfl
  | cons event rest ih => cases event <;> simp [Event.recast, ih]

@[simp] theorem failureOf?_recast :
    failureOf? (events.map (Event.recast m)) = none ↔ failureOf? events = none := by
  induction events with
  | nil => rfl
  | cons event rest ih => cases event <;> simp [Event.recast, ih]

theorem close_recast (width : Nat) (levels : List Nat) :
    close width (m.token t) levels =
      ((close width t levels).1.map (Event.recast m), (close width t levels).2) := by
  induction levels with
  | nil => rfl
  | cons level rest ih =>
    rw [close, close, ih]
    split <;> rfl

theorem finish_recast (place : Extent) (keeps : m.Keeps) (levels : List Nat) :
    finish (κ := Terminal) (place.map m.place) levels =
      (finish place levels).map (Event.recast m) := by
  induction levels with
  | nil => rfl
  | cons level rest ih =>
    rw [finish, finish, ih]
    simp [Event.recast, Recast.token, Token.map, keeps.empty]

theorem indentation_recast (keeps : m.Keeps) :
    indentation w s (m.token t) =
      ((indentation w s t).1.map (Event.recast m), (indentation w s t).2) := by
  have text : Text.lastLine (m.token t).text = m.text (Text.lastLine t.text) := keeps.lastLine _
  have dedent : (⟨Kind.dedent, m.text (Text.lastLine t.text), (m.token t).place⟩ : SourceToken) =
      m.token ⟨Kind.dedent, Text.lastLine t.text, t.place⟩ := rfl
  simp only [indentation, text, keeps.width, dedent, close_recast]
  split
  · rfl
  · simp only [List.map_append, List.map_cons]
    split <;> rfl

theorem step_recast (keeps : m.Keeps) :
    step w s (m.token t) = ((step w s t).1.map (Event.recast m), (step w s t).2) := by
  have breaks : (m.token t).text.contains '\n' = t.text.contains '\n' := by
    rw [Bool.eq_iff_iff, List.contains_iff_mem, List.contains_iff_mem]
    exact keeps.breaks t.text
  rw [step, step, Recast.kind_token, breaks, indentation_recast keeps]
  cases Kind.role t.kind with
  | newline =>
    dsimp only
    split
    · rfl
    · split <;> rfl
  | opener => rfl
  | closer => rfl
  | other => rfl

/-- Recast tokens are laid out the same. -/
theorem scanFrom_recast (keeps : m.Keeps) :
    scanFrom w s (last.map (Extent.map m.place)) (tokens.map m.token) =
      (scanFrom w s last tokens).map (Event.recast m) := by
  induction tokens generalizing s last with
  | nil =>
    cases last with
    | none => rfl
    | some place => exact finish_recast place keeps s.levels
  | cons t rest ih =>
    have later := @ih (step w s t).2 (some t.place)
    rw [List.map_cons, scanFrom_cons, scanFrom_cons, step_recast keeps]
    dsimp only
    by_cases silent : failureOf? (step w s t).1 = none
    · rw [if_pos silent, if_pos (failureOf?_recast.mpr silent), List.map_append, ← later]
      rfl
    · rw [if_neg silent, if_neg (mt failureOf?_recast.mp silent)]

end Layout

end VyperFront
