import VyperFront.Layout.Named
import VyperFront.Proofs.Layout

/-! Streams that are asked in turn. What a stream says is settled by its own tokens: asking
others in between changes nothing. -/

namespace VyperFront.Layout.Stream

variable {κ π : Type}

/-- What events say to someone who asks again and again. Nothing is said after a failure. -/
def repliesOf : List (Event κ π) → List (Reply κ π)
  | [] => []
  | .note _ :: rest => repliesOf rest
  | .token t :: rest => .token t :: repliesOf rest
  | .fail e :: _ => [.failed e]

/-- The tokens among events, and after them the failure, if there is one. -/
def emitted (events : List (Event κ π)) : List (Reply κ π) :=
  (tokensOf events).map .token ++ (failureOf? events).toList.map .failed

variable {events more : List (Event κ π)}

theorem repliesOf_append (events more : List (Event κ π)) :
    repliesOf (events ++ more) =
      if failureOf? events = none then (tokensOf events).map .token ++ repliesOf more
      else repliesOf events := by
  induction events with
  | nil => rfl
  | cons event rest ih =>
    cases event with
    | note n => exact ih
    | token t =>
      change Reply.token t :: repliesOf (rest ++ more) = _
      rw [ih, failureOf?_token, apply_ite (Reply.token t :: ·)]
      rfl
    | fail e => rfl

/-- What is said first, whatever comes after the events: nothing of them, or a token with what
is after it, or a failure and nothing else. -/
theorem first?_cases (events : List (Event κ π)) :
    (first? events = none ∧ ∀ later, repliesOf (events ++ later) = repliesOf later) ∨
    (∃ t more, first? events = some (.token t, more) ∧
      ∀ later, repliesOf (events ++ later) = .token t :: repliesOf (more ++ later)) ∨
    ∃ e, first? events = some (.failed e, []) ∧
      ∀ later, repliesOf (events ++ later) = [.failed e] := by
  induction events with
  | nil => exact .inl ⟨rfl, fun _ => rfl⟩
  | cons event rest ih =>
    cases event with
    | note n => exact ih
    | token t => exact .inr (.inl ⟨t, rest, rfl, fun _ => rfl⟩)
    | fail e => exact .inr (.inr ⟨e, rfl, fun _ => rfl⟩)

@[simp] theorem repliesOf_outputsOf : repliesOf (outputsOf events) = repliesOf events := by
  induction events with
  | nil => rfl
  | cons event rest ih =>
    cases event with
    | note n => exact ih
    | token t => exact congrArg (Reply.token t :: ·) ih
    | fail e => rfl

@[simp] theorem emitted_outputsOf : emitted (outputsOf events) = emitted events := by
  rw [emitted, tokensOf_outputsOf, failureOf?_outputsOf, emitted]

theorem emitted_of_silent (silent : failureOf? events = none) :
    emitted events = (tokensOf events).map .token := by
  rw [emitted, silent]
  exact List.append_nil _

/-- Whether nothing comes after a failure. -/
def Orderly (events : List (Event κ π)) : Prop := repliesOf events = emitted events

theorem orderly_of_silent (silent : failureOf? events = none) : Orderly events := by
  have replies := repliesOf_append events []
  rw [if_pos silent, List.append_nil] at replies
  rw [Orderly, replies, emitted_of_silent silent]
  exact List.append_nil _

theorem Orderly.append (silent : failureOf? events = none) (orderly : Orderly more) :
    Orderly (events ++ more) := by
  rw [Orderly, repliesOf_append, if_pos silent, orderly, emitted, emitted, tokensOf_append,
    failureOf?_append, silent, Option.none_or, List.map_append, List.append_assoc]

theorem orderly_outputsOf_iff : Orderly (outputsOf events) ↔ Orderly events := by
  rw [Orderly, repliesOf_outputsOf, emitted_outputsOf, Orderly]

variable [Kind κ] {w : TabWidth} {s : State} {t : Token κ π} {last : Option π}

/-- Where a line comes out between two levels, the levels deeper than it are closed first. -/
theorem orderly_indentation : Orderly (indentation w s t).1 := by
  apply orderly_outputsOf_iff.mp
  by_cases deeper : s.current < widthAfter w t
  · rw [(indentation_of_lt deeper).1]
    rfl
  · rw [(indentation_of_le (Nat.le_of_not_lt deeper)).1]
    apply Orderly.append (failureOf?_replicate ..)
    split
    · rfl
    · rfl

theorem orderly_step : Orderly (step w s t).1 := by
  rcases step_cases w s t with ⟨_, same⟩ | ⟨_, same⟩ | ⟨_, _, same⟩
  · rw [same]
    rfl
  · rw [same]
    have silent : failureOf? [Event.token t] = none := rfl
    exact Orderly.append silent orderly_indentation
  · rw [same]
    rfl

/-- Nothing comes out of the layout after a failure. -/
theorem orderly_scanFrom (w : TabWidth) (s : State) (last : Option π) (tokens : List (Token κ π)) :
    Orderly (scanFrom w s last tokens) := by
  induction tokens generalizing s last with
  | nil => exact orderly_of_silent (failureOf?_scanFrom_nil w s last)
  | cons t rest ih =>
    rw [scanFrom_cons]
    split
    · next silent => exact Orderly.append silent (ih _ _)
    · exact orderly_step

/-- What a stream still has to say. -/
def due (w : TabWidth) (stream : Stream κ π) : List (Reply κ π) :=
  repliesOf (stream.waiting ++ scanFrom w stream.state stream.last stream.rest)

theorem due_start (w : TabWidth) (tokens : List (Token κ π)) :
    due w (start tokens) = emitted (scan w tokens) :=
  orderly_scanFrom w .start none tokens

theorem repliesOf_scanFrom_cons (w : TabWidth) (s : State) (last : Option π) (t : Token κ π)
    (rest : List (Token κ π)) :
    repliesOf (scanFrom w s last (t :: rest)) =
      repliesOf ((step w s t).1 ++ scanFrom w (step w s t).2 (some t.place) rest) := by
  rw [scanFrom_cons]
  split
  · rfl
  · next fails => rw [repliesOf_append, if_neg fails]

/-- Whether a stream that had something to say has said the first of it, and still has the rest.
With nothing to say it has ended. -/
def Says (w : TabWidth) (due : List (Reply κ π)) (said : Reply κ π × Stream κ π) : Prop :=
  said.1 = due.headD .ended ∧ said.2.due w = due.tail

theorem says_pull (w : TabWidth) (s : State) (last : Option π) (tokens : List (Token κ π)) :
    Says w (repliesOf (scanFrom w s last tokens)) (pull w s last tokens) := by
  induction tokens generalizing s last with
  | nil =>
    cases last with
    | none => exact ⟨rfl, rfl⟩
    | some place =>
      rw [scanFrom, pull, Option.bind_some]
      rcases first?_cases (finish (κ := κ) place s.levels) with
        ⟨first, replies⟩ | ⟨t, more, first, replies⟩ | ⟨e, first, replies⟩
      all_goals
        have whole := replies []
        rw [List.append_nil] at whole
        rw [whole, first]
        exact ⟨rfl, rfl⟩
  | cons t rest ih =>
    rw [repliesOf_scanFrom_cons, pull]
    obtain ⟨events, next⟩ := step w s t
    dsimp only
    rcases first?_cases events with
      ⟨first, replies⟩ | ⟨u, more, first, replies⟩ | ⟨e, first, replies⟩
    · rw [replies, first]
      exact ih _ _
    · rw [replies, first]
      exact ⟨rfl, rfl⟩
    · rw [replies, first]
      exact ⟨rfl, rfl⟩

theorem says_next (w : TabWidth) (stream : Stream κ π) :
    Says w (stream.due w) (stream.next w) := by
  rw [due, next]
  rcases first?_cases stream.waiting with
    ⟨first, replies⟩ | ⟨t, more, first, replies⟩ | ⟨e, first, replies⟩
  · rw [replies, first]
    exact says_pull w _ _ _
  · rw [replies, first]
    exact ⟨rfl, rfl⟩
  · rw [replies, first]
    exact ⟨rfl, rfl⟩

/-- The replies to one of the streams, given the order in which they were asked. -/
def repliesTo (i : Nat) (order : List Nat) (replies : List (Reply κ π)) : List (Reply κ π) :=
  ((order.zip replies).filter (·.1 = i)).map (·.2)

/-- The first replies of a stream that has something to say. After that it has ended. -/
def told (count : Nat) (due : List (Reply κ π)) : List (Reply κ π) :=
  (List.range count).map fun n => due[n]?.getD .ended

omit [Kind κ] in
theorem told_succ (count : Nat) (due : List (Reply κ π)) :
    told (count + 1) due = due.headD .ended :: told count due.tail := by
  rw [told, List.range_succ_eq_map, List.map_cons, List.map_map, told]
  cases due with
  | nil => rfl
  | cons reply rest => rfl

theorem length_interleave (w : TabWidth) (streams : List (Stream κ π)) (order : List Nat) :
    (interleave w streams order).length = order.length := by
  induction order generalizing streams with
  | nil => rfl
  | cons j order ih =>
    rw [interleave]
    split
    · exact congrArg (· + 1) (ih _)
    · exact congrArg (· + 1) (ih _)

theorem repliesTo_interleave (w : TabWidth) (order : List Nat) {streams : List (Stream κ π)}
    {i : Nat} {stream : Stream κ π} (found : streams[i]? = some stream) :
    repliesTo i order (interleave w streams order) = told (order.count i) (stream.due w) := by
  induction order generalizing streams stream with
  | nil => rfl
  | cons j order ih =>
    by_cases asked : j = i
    · subst asked
      obtain ⟨reply, left⟩ := says_next w stream
      have others : (streams.set j (stream.next w).2)[j]? = some (stream.next w).2 :=
        List.getElem?_set_self (List.getElem?_eq_some_iff.mp found).1
      have later := ih others
      rw [left] at later
      rw [interleave, found, List.count_cons_self, told_succ, ← later, ← reply]
      simp [repliesTo]
    · have skips (reply : Reply κ π) (replies : List (Reply κ π)) :
          repliesTo i (j :: order) (reply :: replies) = repliesTo i order replies := by
        simp [repliesTo, asked]
      rw [interleave, List.count_cons_of_ne asked]
      cases streams[j]? with
      | none => exact (skips _ _).trans (ih found)
      | some other =>
        have same : (streams.set j (other.next w).2)[i]? = some stream := by
          rw [List.getElem?_set_ne asked, found]
        exact (skips _ _).trans (ih same)

/-- Streams that are asked in turn do not influence each other. In whatever order they are asked,
each reply is to one request; and a stream says what it says alone: the tokens that the layout
brings out of it, then its failure, if it has one, and from then on that it has ended. -/
theorem interleave_alone (w : TabWidth) (inputs : List (List (Token κ π))) (order : List Nat) :
    (interleave w (inputs.map start) order).length = order.length ∧
      ∀ i tokens, inputs[i]? = some tokens →
        repliesTo i order (interleave w (inputs.map start) order) =
          told (order.count i) (emitted (scan w tokens)) := by
  refine ⟨length_interleave w _ order, ?_⟩
  intro i tokens found
  have started : (inputs.map start)[i]? = some (start tokens) := by
    rw [List.getElem?_map, found]
    rfl
  rw [repliesTo_interleave w order started, due_start]

/-- A block that is left for a column between its levels, so that the stream fails. -/
private def between : List (Token KindName Nat) :=
  [⟨⟨"NAME"⟩, "a".toList, 1⟩, ⟨⟨"_NEWLINE"⟩, "\n  ".toList, 1⟩, ⟨⟨"NAME"⟩, "b".toList, 2⟩,
    ⟨⟨"_NEWLINE"⟩, "\n    ".toList, 2⟩, ⟨⟨"_NEWLINE"⟩, "\n ".toList, 3⟩]

/-- A block that is still open at the end. -/
private def unclosed : List (Token KindName Nat) :=
  [⟨⟨"NAME"⟩, "a".toList, 1⟩, ⟨⟨"_NEWLINE"⟩, "\n  ".toList, 1⟩, ⟨⟨"NAME"⟩, "b".toList, 2⟩]

private def turns : List Nat := [0, 1, 0, 0, 1, 0, 0, 0, 0, 1, 0, 0, 0, 0]

theorem interleave_alone_failing : [between, unclosed][0]? = some between ∧
    repliesTo 0 turns (interleave .eight ([between, unclosed].map start) turns) =
      told 11 (emitted (scan .eight between)) :=
  ⟨rfl, (interleave_alone .eight [between, unclosed] turns).2 0 between rfl⟩

end VyperFront.Layout.Stream
