import Mathlib.Data.List.Forall2
import VyperFront.Proofs.Layout.Run

namespace VyperFront.Layout

variable {κ π ρ : Type}

/-- The layout sees no difference between the tokens. -/
structure Alike (w : TabWidth) (t : Token κ π) (u : Token κ ρ) : Prop where
  kind : u.kind = t.kind
  width : widthAfter w u = widthAfter w t
  breaks : '\n' ∈ u.text ↔ '\n' ∈ t.text

/-- The events bring out tokens of the same kinds, and fail in both or in neither. -/
structure SameKinds (events : List (Event κ π)) (others : List (Event κ ρ)) : Prop where
  kinds : (tokensOf others).map Token.kind = (tokensOf events).map Token.kind
  fails : failureOf? others = none ↔ failureOf? events = none

namespace SameKinds

variable {events more : List (Event κ π)} {others further : List (Event κ ρ)}

theorem nil : SameKinds ([] : List (Event κ π)) ([] : List (Event κ ρ)) := ⟨rfl, by simp⟩

theorem append (same : SameKinds events others) (also : SameKinds more further) :
    SameKinds (events ++ more) (others ++ further) where
  kinds := by simp [same.kinds, also.kinds]
  fails := by simp [Option.or_eq_none_iff, same.fails, also.fails]

theorem token {t : Token κ π} {u : Token κ ρ} (kind : u.kind = t.kind)
    (same : SameKinds events others) : SameKinds (.token t :: events) (.token u :: others) where
  kinds := by simp [kind, same.kinds]
  fails := same.fails

theorem of_outputsOf (same : SameKinds (outputsOf events) (outputsOf others)) :
    SameKinds events others where
  kinds := by simpa using same.kinds
  fails := by simpa using same.fails

end SameKinds

variable [Kind κ] {w : TabWidth} {s : State} {t : Token κ π} {u : Token κ ρ}
  {tokens : List (Token κ π)} {others : List (Token κ ρ)}

omit [Kind κ] in
theorem Alike.of_lastLine (kind : u.kind = t.kind)
    (lastLine : Text.lastLine u.text = Text.lastLine t.text)
    (breaks : '\n' ∈ u.text ↔ '\n' ∈ t.text) : Alike w t u :=
  ⟨kind, by rw [widthAfter, widthAfter, lastLine], breaks⟩

omit [Kind κ] in
theorem Alike.symm (alike : Alike w t u) : Alike w u t :=
  ⟨alike.kind.symm, alike.width.symm, alike.breaks.symm⟩

theorem Alike.indentation (alike : Alike w t u) :
    (indentation w s u).2 = (indentation w s t).2 ∧
      SameKinds (indentation w s t).1 (indentation w s u).1 := by
  have width := alike.width
  by_cases deeper : s.current < widthAfter w t
  · obtain ⟨outputs, state⟩ := indentation_of_lt deeper
    obtain ⟨also, states⟩ := indentation_of_lt (width.symm ▸ deeper : s.current < _)
    refine ⟨by rw [state, states, width], .of_outputsOf ?_⟩
    rw [outputs, also]
    exact .token rfl .nil
  · have shallow := Nat.le_of_not_lt deeper
    obtain ⟨outputs, state⟩ := indentation_of_le shallow
    obtain ⟨also, states⟩ := indentation_of_le (width.symm ▸ shallow : _ ≤ s.current)
    refine ⟨by rw [state, states, width], .of_outputsOf ?_⟩
    rw [outputs, also, width]
    refine .append ⟨by simp, by simp⟩ ?_
    split
    · exact .nil
    · exact ⟨rfl, by simp⟩

theorem Alike.step (alike : Alike w t u) :
    (step w s u).2 = (step w s t).2 ∧ SameKinds (step w s t).1 (step w s u).1 := by
  have role : Kind.role u.kind = Kind.role t.kind := congrArg Kind.role alike.kind
  have dropped : Dropped s u ↔ Dropped s t := by rw [Dropped, Dropped, role]
  have indents : Indents s u ↔ Indents s t := by rw [Indents, Indents, role, alike.breaks]
  rcases step_cases w s t with ⟨here, same⟩ | ⟨here, same⟩ | ⟨plain, level, same⟩
  · rcases step_cases w s u with ⟨_, also⟩ | ⟨there, _⟩ | ⟨other, _⟩
    · rw [same, also]
      exact ⟨rfl, .nil⟩
    · exact absurd there.2.1 here.2
    · exact absurd (dropped.mpr here) other
  · rcases step_cases w s u with ⟨there, _⟩ | ⟨_, also⟩ | ⟨_, other, _⟩
    · exact absurd here.2.1 there.2
    · obtain ⟨state, kinds⟩ := alike.indentation (s := s)
      rw [same, also]
      exact ⟨state, .token alike.kind kinds⟩
    · exact absurd (indents.mpr here) other
  · rcases step_cases w s u with ⟨there, _⟩ | ⟨there, _⟩ | ⟨_, _, also⟩
    · exact absurd (dropped.mp there) plain
    · exact absurd (indents.mp there) level
    · rw [same, also, role]
      exact ⟨rfl, .token alike.kind .nil⟩

private theorem sameKinds_finish (last : π) (final : ρ) (levels : List Nat) :
    SameKinds (finish (κ := κ) last levels) (finish (κ := κ) final levels) := by
  refine ⟨?_, by simp [failureOf?_finish]⟩
  induction levels with
  | nil => rfl
  | cons level rest ih => exact congrArg (Kind.dedent :: ·) ih

/-- Alike tokens are laid out alike. -/
theorem sameKinds_scanFrom {last : Option π} {final : Option ρ}
    (alike : List.Forall₂ (Alike w) tokens others) (ends : final.isSome = last.isSome) :
    SameKinds (scanFrom w s last tokens) (scanFrom w s final others) := by
  induction alike generalizing s last final with
  | nil =>
    cases last <;> cases final
    · exact .nil
    · cases ends
    · cases ends
    · exact sameKinds_finish _ _ _
  | @cons t u _ _ here _ ih =>
    obtain ⟨state, same⟩ := here.step (s := s)
    rw [scanFrom_cons, scanFrom_cons, state]
    by_cases silent : failureOf? (step w s t).1 = none
    · rw [if_pos silent, if_pos (same.fails.mpr silent)]
      exact same.append (ih rfl)
    · rw [if_neg silent, if_neg (mt same.fails.mp silent)]
      exact same

theorem sameKinds_scan (alike : List.Forall₂ (Alike w) tokens others) :
    SameKinds (scan w tokens) (scan w others) :=
  sameKinds_scanFrom alike rfl

end VyperFront.Layout
