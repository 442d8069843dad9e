import VyperFront.Layout.Named
import VyperFront.Proofs.Layout.Run

namespace VyperFront.Layout

variable {κ π : Type} [Kind κ]

/-- Whether a stream has no indents or dedents of its own. -/
def Plain (tokens : List (Token κ π)) : Prop :=
  ∀ t ∈ tokens, t.kind ≠ Kind.indent ∧ t.kind ≠ Kind.dedent

/-- Tokens that lead from one number of open levels to another. No level is closed that is
not open. -/
inductive Nests : Nat → List (Token κ π) → Nat → Prop where
  | nil : Nests n [] n
  | other (plain : t.kind ≠ Kind.indent ∧ t.kind ≠ Kind.dedent) (rest : Nests n tokens m) :
      Nests n (t :: tokens) m
  | indent (opens : t.kind = Kind.indent) (rest : Nests (n + 1) tokens m) :
      Nests n (t :: tokens) m
  | dedent (closes : t.kind = Kind.dedent) (rest : Nests n tokens m) :
      Nests (n + 1) (t :: tokens) m

/-- What the layout looks at: all tokens, or those up to the one at which it fails. -/
inductive Consumed (w : TabWidth) : List (Token κ π) → List (Token κ π) → Prop where
  | all (silent : failureOf? (scan w tokens) = none) : Consumed w tokens tokens
  | failing (silent : failureOf? (scan w before) = none)
      (fails : failureOf? (scan w (before ++ [t])) ≠ none) :
      Consumed w (before ++ t :: rest) (before ++ [t])

variable {w : TabWidth} {s : State} {t : Token κ π} {before rest tokens more : List (Token κ π)}
  {m n k : Nat}

theorem Nests.append (first : Nests n tokens k) (second : Nests k more m) :
    Nests n (tokens ++ more) m := by
  induction first with
  | nil => exact second
  | other plain _ ih => exact .other plain (ih second)
  | indent opens _ ih => exact .indent opens (ih second)
  | dedent closes _ ih => exact .dedent closes (ih second)

theorem Nests.left (nests : Nests n (tokens ++ more) m) : ∃ left, Nests n tokens left := by
  induction tokens generalizing n with
  | nil => exact ⟨n, .nil⟩
  | cons t rest ih =>
    cases nests with
    | other plain later =>
      obtain ⟨left, nests⟩ := ih later
      exact ⟨left, .other plain nests⟩
    | indent opens later =>
      obtain ⟨left, nests⟩ := ih later
      exact ⟨left, .indent opens nests⟩
    | dedent closes later =>
      obtain ⟨left, nests⟩ := ih later
      exact ⟨left, .dedent closes nests⟩

theorem Nests.replicate (closes : t.kind = Kind.dedent) (count : Nat) :
    Nests (count + n) (List.replicate count t) n := by
  induction count with
  | zero => rw [Nat.zero_add]; exact .nil
  | succ count ih => rw [Nat.succ_add]; exact .dedent closes ih

omit [Kind κ] in
theorem deeper_add_kept (width : Nat) (levels : List Nat) :
    deeper width levels + (kept width levels).length = levels.length := by
  rw [deeper, kept, ← List.length_append, List.takeWhile_append_dropWhile]

theorem Plain.seen (plain : Plain (before ++ t :: rest)) : Plain (before ++ [t]) :=
  fun u member => plain u (by simpa using List.mem_append_left rest member)

theorem nests_indentation : Nests s.levels.length (tokensOf (indentation w s t).1)
    (indentation w s t).2.levels.length := by
  by_cases above : s.current < widthAfter w t
  · rw [tokensOf_indentation_of_lt above, (indentation_of_lt above).2]
    exact .indent rfl .nil
  · have shallow := Nat.le_of_not_lt above
    rw [tokensOf_indentation_of_le shallow, (indentation_of_le shallow).2,
      ← deeper_add_kept (widthAfter w t) s.levels]
    exact .replicate rfl _

theorem nests_step (plain : t.kind ≠ Kind.indent ∧ t.kind ≠ Kind.dedent) :
    Nests s.levels.length (tokensOf (step w s t).1) (step w s t).2.levels.length := by
  rcases step_cases w s t with ⟨_, same⟩ | ⟨_, same⟩ | ⟨_, _, same⟩
  · rw [same]
    exact .nil
  · rw [same]
    exact .other plain nests_indentation
  · rw [same]
    exact .other plain .nil

theorem nests_run (plain : Plain tokens) :
    Nests s.levels.length (tokensOf (run w s tokens).1) (run w s tokens).2.levels.length := by
  induction tokens generalizing s with
  | nil => exact .nil
  | cons t rest ih =>
    obtain ⟨here, later⟩ := List.forall_mem_cons.mp plain
    rw [run, tokensOf_append]
    exact (nests_step here).append (ih later)

theorem nests_finish (place : π) (levels : List Nat) :
    Nests levels.length (tokensOf (finish (κ := κ) place levels)) 0 := by
  induction levels with
  | nil => exact .nil
  | cons level rest ih => exact .dedent rfl ih

/-- At the end all levels are closed. With no token before it there are none. -/
theorem nests_ending (tokens : List (Token κ π)) :
    Nests (run w .start tokens).2.levels.length
      (tokensOf (scanFrom (κ := κ) w (run w .start tokens).2 (lastPlace none tokens) [])) 0 := by
  cases found : lastPlace none tokens with
  | some place => exact nests_finish place _
  | none =>
    have empty : tokens = [] := by
      simpa [lastPlace, List.getLast?_eq_none_iff] using found
    subst empty
    exact .nil

/-- The layout leads from no open level to none, unless it fails. -/
theorem nests_scan (plain : Plain tokens) :
    ∃ left, Nests 0 (tokensOf (scan w tokens)) left ∧
      (failureOf? (scan w tokens) = none → left = 0) := by
  by_cases silent : failureOf? (scan w tokens) = none
  · refine ⟨0, ?_, fun _ => rfl⟩
    rw [scan_of_silent silent, tokensOf_append]
    exact (nests_run plain).append (nests_ending tokens)
  · obtain ⟨before, t, rest, rfl, _, stops, _⟩ := exists_failing_scan silent
    have nests := nests_run (w := w) (s := .start) plain.seen
    rw [← stops] at nests
    exact ⟨_, nests, fun none => absurd none silent⟩

variable [DecidableEq κ]

def indents (tokens : List (Token κ π)) : Nat := tokens.countP (·.kind = Kind.indent)

def dedents (tokens : List (Token κ π)) : Nat := tokens.countP (·.kind = Kind.dedent)

/-- The tokens that are neither indents nor dedents. -/
def others (tokens : List (Token κ π)) : List (Token κ π) :=
  tokens.filter fun t => t.kind ≠ Kind.indent ∧ t.kind ≠ Kind.dedent

theorem Nests.dedents_add (nests : Nests n tokens m) : dedents tokens + m = indents tokens + n := by
  induction nests with
  | nil => simp [dedents, indents]
  | other plain _ ih => simpa [dedents, indents, plain] using ih
  | indent opens _ ih =>
    simp only [dedents, indents, List.countP_cons, opens, Kind.indent_ne_dedent] at ih ⊢
    simp
    omega
  | dedent closes _ ih =>
    simp only [dedents, indents, List.countP_cons, closes, Kind.indent_ne_dedent.symm] at ih ⊢
    simp
    omega

theorem others_eq_nil (added : ∀ t ∈ tokens, t.kind = Kind.indent ∨ t.kind = Kind.dedent) :
    others tokens = [] := by
  refine List.filter_eq_nil_iff.mpr fun t member => ?_
  rcases added t member with indent | dedent
  · simp [indent]
  · simp [dedent]

theorem others_append (tokens more : List (Token κ π)) :
    others (tokens ++ more) = others tokens ++ others more :=
  List.filter_append ..

theorem others_step (plain : t.kind ≠ Kind.indent ∧ t.kind ≠ Kind.dedent) :
    others (tokensOf (step w (run w .start before).2 t).1) =
      if Enclosed before t then [] else [t] := by
  have itself : others [t] = [t] := by simp [others, plain]
  rcases step_cases w (run w .start before).2 t with ⟨dropped, same⟩ | ⟨indents, same⟩ |
    ⟨stays, _, same⟩
  · rw [same, if_pos (dropped_run_iff.mp dropped)]
    rfl
  · have outside : ¬ Enclosed before t :=
      fun enclosed => (dropped_run_iff.mpr enclosed).2 indents.2.1
    rw [same, if_neg outside, tokensOf_token, ← List.singleton_append, others_append, itself,
      others_eq_nil fun u => kind_of_mem_indentation, List.append_nil]
  · rw [same, if_neg (mt dropped_run_iff.mpr stays)]
    exact itself

/-- Indents and dedents apart, a run brings out the tokens that are not dropped. -/
theorem others_run (plain : Plain tokens) :
    others (tokensOf (run w .start tokens).1) = unenclosed [] tokens := by
  induction tokens using List.reverseRecOn with
  | nil => rfl
  | append_singleton before t ih =>
    obtain ⟨earlier, here⟩ := List.forall_mem_append.mp plain
    rw [run_concat, tokensOf_append, others_append, ih earlier,
      others_step (here t (List.mem_singleton_self t)), unenclosed_concat]

/-- Without the indents and dedents in it, what comes out of the layout is what it looks
at, less the line breaks within brackets. The indents and dedents are nested. -/
theorem scan_nested (w : TabWidth) (tokens : List (Token κ π)) (plain : Plain tokens) :
    (∃ consumed, Consumed w tokens consumed ∧ scan w consumed = scan w tokens ∧
        others (tokensOf (scan w tokens)) = unenclosed [] consumed) ∧
      (∀ before, before <+: tokensOf (scan w tokens) → dedents before ≤ indents before) ∧
        (failureOf? (scan w tokens) = none →
          dedents (tokensOf (scan w tokens)) = indents (tokensOf (scan w tokens))) := by
  obtain ⟨left, nests, closed⟩ := nests_scan (w := w) plain
  refine ⟨?_, ?_, ?_⟩
  · by_cases silent : failureOf? (scan w tokens) = none
    · refine ⟨tokens, .all silent, rfl, ?_⟩
      rw [scan_of_silent silent, tokensOf_append, others_append, others_run plain,
        others_eq_nil fun u member => .inr (kind_of_mem_scanFrom_nil member), List.append_nil]
    · obtain ⟨before, t, rest, rfl, earlier, stops, same⟩ := exists_failing_scan silent
      refine ⟨before ++ [t], .failing earlier ?_, same.trans stops.symm, ?_⟩
      · rwa [same, ← stops]
      · rw [stops, others_run plain.seen]
  · rintro before ⟨more, whole⟩
    rw [← whole] at nests
    obtain ⟨still, nests⟩ := nests.left
    exact Nat.le.intro nests.dedents_add
  · intro silent
    obtain rfl := closed silent
    exact nests.dedents_add

/-- A line within brackets that are closed once too often, then a block of two lines. -/
private def block : List (Token KindName Nat) :=
  [⟨⟨"LPAR"⟩, "(".toList, 1⟩, ⟨⟨"_NEWLINE"⟩, "\n  ".toList, 1⟩, ⟨⟨"RPAR"⟩, ")".toList, 2⟩,
    ⟨⟨"RPAR"⟩, ")".toList, 2⟩, ⟨⟨"_NEWLINE"⟩, "\n  ".toList, 2⟩, ⟨⟨"NAME"⟩, "a".toList, 3⟩,
    ⟨⟨"_NEWLINE"⟩, "\n\t".toList, 3⟩, ⟨⟨"NAME"⟩, "b".toList, 4⟩]

theorem scan_nested_block : Plain block ∧
    dedents (tokensOf (scan .eight block)) = indents (tokensOf (scan .eight block)) := by
  have plain : Plain block := by
    unfold Plain
    decide
  exact ⟨plain, (scan_nested .eight block plain).2.2 (by decide)⟩

end VyperFront.Layout
