import VyperFront.Layout.Stream

namespace VyperFront.Layout

variable {κ π : Type}

/-- The events without the notes, in order. -/
def outputsOf (events : List (Event κ π)) : List (Event κ π) :=
  events.filter fun
    | .note _ => false
    | _ => true

section Events

variable {events more : List (Event κ π)}

@[simp] theorem tokensOf_nil : tokensOf ([] : List (Event κ π)) = [] := rfl

@[simp] theorem tokensOf_token (t : Token κ π) :
    tokensOf (.token t :: events) = t :: tokensOf events := rfl

@[simp] theorem tokensOf_note (n : Note) : tokensOf (.note n :: events) = tokensOf events := rfl

@[simp] theorem tokensOf_fail (e : BadDedent π) : tokensOf (.fail e :: events) = tokensOf events :=
  rfl

@[simp] theorem failureOf?_nil : failureOf? ([] : List (Event κ π)) = none := rfl

@[simp] theorem failureOf?_token (t : Token κ π) :
    failureOf? (.token t :: events) = failureOf? events := rfl

@[simp] theorem failureOf?_note (n : Note) : failureOf? (.note n :: events) = failureOf? events :=
  rfl

@[simp] theorem failureOf?_fail (e : BadDedent π) : failureOf? (.fail e :: events) = some e := rfl

@[simp] theorem outputsOf_nil : outputsOf ([] : List (Event κ π)) = [] := rfl

@[simp] theorem outputsOf_token (t : Token κ π) :
    outputsOf (.token t :: events) = .token t :: outputsOf events := rfl

@[simp] theorem outputsOf_note (n : Note) : outputsOf (.note n :: events) = outputsOf events := rfl

@[simp] theorem outputsOf_fail (e : BadDedent π) :
    outputsOf (.fail e :: events) = .fail e :: outputsOf events := rfl

@[simp] theorem tokensOf_append :
    tokensOf (events ++ more) = tokensOf events ++ tokensOf more :=
  List.filterMap_append

@[simp] theorem failureOf?_append :
    failureOf? (events ++ more) = (failureOf? events).or (failureOf? more) :=
  List.findSome?_append

@[simp] theorem outputsOf_append :
    outputsOf (events ++ more) = outputsOf events ++ outputsOf more :=
  List.filter_append ..

@[simp] theorem tokensOf_outputsOf : tokensOf (outputsOf events) = tokensOf events := by
  induction events with
  | nil => rfl
  | cons event rest ih => cases event <;> simp [ih]

@[simp] theorem failureOf?_outputsOf : failureOf? (outputsOf events) = failureOf? events := by
  induction events with
  | nil => rfl
  | cons event rest ih => cases event <;> simp [ih]

@[simp] theorem tokensOf_replicate (count : Nat) (t : Token κ π) :
    tokensOf (List.replicate count (.token t)) = List.replicate count t :=
  List.filterMap_replicate_of_some rfl

@[simp] theorem failureOf?_replicate (count : Nat) (t : Token κ π) :
    failureOf? (List.replicate count (.token t)) = none := by
  induction count with
  | zero => rfl
  | succ count ih => exact ih

theorem failureOf?_eq_none_iff : failureOf? events = none ↔ events.any isFailure = false := by
  rw [failureOf?, List.findSome?_eq_none_iff, List.any_eq_false]
  refine forall₂_congr fun event _ => ?_
  cases event <;> simp [isFailure]

end Events

variable [Kind κ] {w : TabWidth} {s : State} {t u : Token κ π}

theorem scanFrom_cons (w : TabWidth) (s : State) (last : Option π) (t : Token κ π)
    (rest : List (Token κ π)) :
    scanFrom w s last (t :: rest) =
      if failureOf? (step w s t).1 = none then
        (step w s t).1 ++ scanFrom w (step w s t).2 (some t.place) rest
      else (step w s t).1 := by
  rw [scanFrom]
  obtain ⟨events, next⟩ := step w s t
  simp only [failureOf?_eq_none_iff]
  cases events.any isFailure <;> rfl

/-- The width of the line that begins after the token. -/
def widthAfter (w : TabWidth) (t : Token κ π) : Nat := w.measure (Text.lastLine t.text)

/-- How many of the levels are deeper than the width. -/
def deeper (width : Nat) (levels : List Nat) : Nat := (levels.takeWhile (width < ·)).length

/-- The levels that are left when those deeper than the width are closed. -/
def kept (width : Nat) (levels : List Nat) : List Nat := levels.dropWhile (width < ·)

omit [Kind κ] in
theorem close_spec (width : Nat) (t : Token κ π) (levels : List Nat) :
    outputsOf (close width t levels).1 = List.replicate (deeper width levels) (.token t) ∧
      (close width t levels).2 = kept width levels := by
  induction levels with
  | nil => exact ⟨rfl, rfl⟩
  | cons level rest ih =>
    obtain ⟨outputs, levels⟩ := ih
    by_cases deep : width < level
    · simp only [close, if_pos deep, deeper, kept, List.takeWhile_cons, List.dropWhile_cons,
        decide_eq_true deep, if_true]
      exact ⟨congrArg (Event.token t :: ·) outputs, levels⟩
    · simp [close, deep, deeper, kept]

theorem indentation_of_lt (deeper : s.current < widthAfter w t) :
    outputsOf (indentation w s t).1 =
        [.token ⟨Kind.indent, Text.lastLine t.text, t.place⟩] ∧
      (indentation w s t).2 = { s with levels := widthAfter w t :: s.levels } := by
  rw [widthAfter] at deeper
  simp [indentation, if_pos deeper, widthAfter]

theorem indentation_of_le (shallow : widthAfter w t ≤ s.current) :
    outputsOf (indentation w s t).1 =
        List.replicate (deeper (widthAfter w t) s.levels)
            (.token ⟨Kind.dedent, Text.lastLine t.text, t.place⟩) ++
          (if (kept (widthAfter w t) s.levels).headD 0 = widthAfter w t then []
          else [.fail ⟨widthAfter w t, s.openLevels, t.place⟩]) ∧
      (indentation w s t).2 = { s with levels := kept (widthAfter w t) s.levels } := by
  obtain ⟨outputs, levels⟩ := close_spec (widthAfter w t)
    (⟨Kind.dedent, Text.lastLine t.text, t.place⟩ : Token κ π) s.levels
  rw [widthAfter] at shallow outputs levels ⊢
  simp only [indentation, if_neg (Nat.not_lt.mpr shallow), levels]
  refine ⟨?_, trivial⟩
  rw [List.cons_append, outputsOf_note, outputsOf_append, outputs]
  split <;> rfl

theorem tokensOf_indentation_of_lt (deeper : s.current < widthAfter w t) :
    tokensOf (indentation w s t).1 = [⟨Kind.indent, Text.lastLine t.text, t.place⟩] := by
  rw [← tokensOf_outputsOf, (indentation_of_lt deeper).1]
  rfl

theorem tokensOf_indentation_of_le (shallow : widthAfter w t ≤ s.current) :
    tokensOf (indentation w s t).1 = List.replicate (deeper (widthAfter w t) s.levels)
      ⟨Kind.dedent, Text.lastLine t.text, t.place⟩ := by
  rw [← tokensOf_outputsOf, (indentation_of_le shallow).1, tokensOf_append, tokensOf_replicate]
  split <;> simp

theorem kind_of_mem_indentation (member : u ∈ tokensOf (indentation w s t).1) :
    u.kind = Kind.indent ∨ u.kind = Kind.dedent := by
  by_cases deeper : s.current < widthAfter w t
  · rw [tokensOf_indentation_of_lt deeper, List.mem_singleton] at member
    exact .inl (congrArg Token.kind member)
  · rw [tokensOf_indentation_of_le (Nat.le_of_not_lt deeper)] at member
    exact .inr (congrArg Token.kind (List.eq_of_mem_replicate member))

/-- How many brackets are open after a token. A closer without an opener closes nothing. -/
def depthAfter (depth : Nat) : Role → Nat
  | .opener => depth + 1
  | .closer => depth - 1
  | _ => depth

/-- Whether the token is a line break within brackets, which is left out. -/
def Dropped (s : State) (t : Token κ π) : Prop :=
  Kind.role t.kind = .newline ∧ s.depth ≠ 0

/-- Whether a line begins after the token whose indentation counts. -/
def Indents (s : State) (t : Token κ π) : Prop :=
  Kind.role t.kind = .newline ∧ s.depth = 0 ∧ '\n' ∈ t.text

/-- What one token can do to the layout. -/
theorem step_cases (w : TabWidth) (s : State) (t : Token κ π) :
    (Dropped s t ∧ step w s t = ([], s)) ∨
    (Indents s t ∧ step w s t = (.token t :: (indentation w s t).1, (indentation w s t).2)) ∨
    (¬ Dropped s t ∧ ¬ Indents s t ∧
      step w s t = ([.token t], { s with depth := depthAfter s.depth (Kind.role t.kind) })) := by
  unfold step
  cases role : Kind.role t.kind with
  | newline =>
    by_cases open_ : s.depth = 0
    · by_cases breaks : '\n' ∈ t.text
      · refine .inr (.inl ⟨⟨role, open_, breaks⟩, ?_⟩)
        simp [open_, breaks]
      · refine .inr (.inr ⟨fun dropped => dropped.2 open_, fun indents => breaks indents.2.2, ?_⟩)
        obtain ⟨depth, levels⟩ := s
        obtain rfl : depth = 0 := open_
        simp [breaks, depthAfter]
    · exact .inl ⟨⟨role, open_⟩, by simp [open_]⟩
  | opener | closer | other =>
    refine .inr (.inr ⟨?_, ?_, rfl⟩)
    · rintro ⟨newline, _⟩
      rw [role] at newline
      cases newline
    · rintro ⟨newline, _⟩
      rw [role] at newline
      cases newline

omit [Kind κ] in
theorem headD_kept_zero (levels : List Nat) : (kept 0 levels).headD 0 = 0 := by
  induction levels with
  | nil => rfl
  | cons level rest ih =>
    by_cases deep : 0 < level
    · simpa [kept, deep] using ih
    · simpa [kept, deep] using Nat.eq_zero_of_not_pos deep

/-- The layout fails at the token that it looks at, for the line after it. This is indented. -/
theorem fails_of_step {e : BadDedent π} (fails : failureOf? (step w s t).1 = some e) :
    Indents s t ∧ e.place = t.place ∧ e.column = widthAfter w t ∧ e.expected = s.openLevels ∧
      widthAfter w t ≠ 0 := by
  rcases step_cases w s t with ⟨_, same⟩ | ⟨indents, same⟩ | ⟨_, _, same⟩
  · rw [same] at fails
    cases fails
  · rw [same, failureOf?_token, ← failureOf?_outputsOf] at fails
    by_cases above : s.current < widthAfter w t
    · rw [(indentation_of_lt above).1] at fails
      cases fails
    · rw [(indentation_of_le (Nat.le_of_not_lt above)).1, failureOf?_append, failureOf?_replicate,
        Option.none_or] at fails
      split at fails
      · cases fails
      · next apart =>
        cases fails
        refine ⟨indents, rfl, rfl, rfl, fun zero => apart ?_⟩
        rw [zero, headD_kept_zero]
  · rw [same] at fails
    cases fails

/-- A token brings out itself, and indents or dedents. -/
theorem mem_tokensOf_step (member : u ∈ tokensOf (step w s t).1) :
    u = t ∨ u.kind = Kind.indent ∨ u.kind = Kind.dedent := by
  rcases step_cases w s t with ⟨_, same⟩ | ⟨_, same⟩ | ⟨_, _, same⟩
  · rw [same] at member
    cases member
  · rw [same, tokensOf_token, List.mem_cons] at member
    exact member.imp_right kind_of_mem_indentation
  · rw [same] at member
    exact .inl (List.mem_singleton.mp member)

theorem failureOf?_finish (last : π) (levels : List Nat) :
    failureOf? ((finish last levels : List (Event κ π))) = none := by
  induction levels with
  | nil => rfl
  | cons level rest ih => exact ih

theorem kind_of_mem_finish {last : π} {levels : List Nat}
    (member : u ∈ tokensOf (finish last levels)) : u.kind = Kind.dedent := by
  induction levels with
  | nil => cases member
  | cons level rest ih =>
    rcases List.mem_cons.mp member with rfl | later
    · rfl
    · exact ih later

theorem failureOf?_scanFrom_nil (w : TabWidth) (s : State) (last : Option π) :
    failureOf? (scanFrom w s last ([] : List (Token κ π))) = none := by
  cases last with
  | none => rfl
  | some place => exact failureOf?_finish place s.levels

theorem kind_of_mem_scanFrom_nil {last : Option π}
    (member : t ∈ tokensOf (scanFrom w s last [])) : t.kind = Kind.dedent := by
  cases last with
  | none => cases member
  | some place => exact kind_of_mem_finish member

end VyperFront.Layout
