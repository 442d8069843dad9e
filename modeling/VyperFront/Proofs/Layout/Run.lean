import Mathlib.Data.List.Infix
import VyperFront.Proofs.Layout

/-! Runs of the layout: what a stretch of tokens brings out, and the state after it. The
brackets that are open then are told by the tokens alone. The depth of the layout never falls below
zero, so it is not the difference of opening and closing brackets, but the greatest such difference
among the last tokens. -/

namespace VyperFront.Layout

variable {κ π : Type} [Kind κ] {w : TabWidth} {s : State} {last : Option π}
  {t : Token κ π} {before rest tokens : List (Token κ π)}

/-- What a stretch of tokens brings out as long as the layout does not fail. -/
def run (w : TabWidth) (s : State) : List (Token κ π) → List (Event κ π) × State
  | [] => ([], s)
  | t :: rest =>
    ((step w s t).1 ++ (run w (step w s t).2 rest).1, (run w (step w s t).2 rest).2)

@[simp] theorem run_nil : run w s ([] : List (Token κ π)) = ([], s) := rfl

theorem run_append (before rest : List (Token κ π)) :
    run w s (before ++ rest) =
      ((run w s before).1 ++ (run w (run w s before).2 rest).1,
        (run w (run w s before).2 rest).2) := by
  induction before generalizing s with
  | nil => rfl
  | cons t more ih => simp only [List.cons_append, run, ih, List.append_assoc]

theorem run_concat (before : List (Token κ π)) (t : Token κ π) :
    run w s (before ++ [t]) =
      ((run w s before).1 ++ (step w (run w s before).2 t).1,
        (step w (run w s before).2 t).2) := by
  rw [run_append]
  simp only [run, List.append_nil]

/-- The place of the last token, or the given one if there is none. -/
def lastPlace (last : Option π) (tokens : List (Token κ π)) : Option π :=
  (tokens.getLast?.map (·.place)).or last

/-- The layout goes on from where a run without a failure has come to. -/
theorem scanFrom_append (silent : failureOf? (run w s before).1 = none) :
    scanFrom w s last (before ++ rest) =
      (run w s before).1 ++ scanFrom w (run w s before).2 (lastPlace last before) rest := by
  induction before generalizing s last with
  | nil => rfl
  | cons t more ih =>
    rw [run, failureOf?_append, Option.or_eq_none_iff] at silent
    obtain ⟨here, later⟩ := silent
    rw [List.cons_append, scanFrom_cons, if_pos here, ih later, run, List.append_assoc]
    congr 3
    cases last <;> simp [lastPlace, List.getLast?_cons]

theorem scanFrom_failing (silent : failureOf? (run w s before).1 = none)
    (fails : failureOf? (step w (run w s before).2 t).1 ≠ none) :
    scanFrom w s last (before ++ t :: rest) = (run w s (before ++ [t])).1 := by
  rw [scanFrom_append silent, scanFrom_cons, if_neg fails, run_concat]

/-- What comes out for tokens comes first whatever follows them, and nothing comes after
a failure. -/
theorem exists_later (silent : failureOf? (run w .start before).1 = none) (t : Token κ π)
    (rest : List (Token κ π)) :
    ∃ later, scan w (before ++ t :: rest) = (run w .start (before ++ [t])).1 ++ later ∧
      (failureOf? (run w .start (before ++ [t])).1 ≠ none → later = []) := by
  rw [scan, scanFrom_append silent, scanFrom_cons, run_concat, failureOf?_append, silent,
    Option.none_or]
  by_cases here : failureOf? (step w (run w .start before).2 t).1 = none
  · rw [if_pos here, ← List.append_assoc]
    exact ⟨_, rfl, fun fails => absurd here fails⟩
  · rw [if_neg here]
    exact ⟨[], (List.append_nil _).symm, fun _ => rfl⟩

/-- A run fails at one of its tokens, the first at which the layout does. -/
theorem exists_failing (fails : failureOf? (run w s tokens).1 ≠ none) :
    ∃ before t rest, tokens = before ++ t :: rest ∧ failureOf? (run w s before).1 = none ∧
      failureOf? (step w (run w s before).2 t).1 ≠ none := by
  induction tokens generalizing s with
  | nil => exact absurd rfl fails
  | cons t rest ih =>
    by_cases here : failureOf? (step w s t).1 = none
    · rw [run, failureOf?_append, here, Option.none_or] at fails
      obtain ⟨before, u, more, rfl, silent, failing⟩ := ih fails
      refine ⟨t :: before, u, more, rfl, ?_, failing⟩
      rw [run, failureOf?_append, here, silent, Option.none_or]
    · exact ⟨[], t, rest, rfl, rfl, here⟩

theorem failureOf?_scan_eq_none_iff :
    failureOf? (scan w tokens) = none ↔ failureOf? (run w .start tokens).1 = none := by
  constructor
  · intro silent
    by_contra fails
    obtain ⟨before, t, rest, rfl, earlier, failing⟩ := exists_failing fails
    rw [scan, scanFrom_failing earlier failing, run_concat, failureOf?_append, earlier,
      Option.none_or] at silent
    exact failing silent
  · intro silent
    have whole : scanFrom w .start none (tokens ++ []) = _ := scanFrom_append silent
    rw [List.append_nil] at whole
    rw [scan, whole, failureOf?_append, silent, failureOf?_scanFrom_nil, Option.none_or]

/-- Where the layout does not fail, all levels are closed after the run of the tokens. -/
theorem scan_of_silent (silent : failureOf? (scan w tokens) = none) :
    scan w tokens = (run w .start tokens).1 ++
      scanFrom w (run w .start tokens).2 (lastPlace none tokens) [] := by
  rw [scan, ← scanFrom_append (failureOf?_scan_eq_none_iff.mp silent), List.append_nil]

theorem exists_failing_scan (fails : failureOf? (scan w tokens) ≠ none) :
    ∃ before t rest, tokens = before ++ t :: rest ∧ failureOf? (scan w before) = none ∧
      scan w tokens = (run w .start (before ++ [t])).1 ∧
        scan w (before ++ [t]) = (run w .start (before ++ [t])).1 := by
  obtain ⟨before, t, rest, rfl, silent, failing⟩ :=
    exists_failing (mt failureOf?_scan_eq_none_iff.mpr fails)
  exact ⟨before, t, rest, rfl, failureOf?_scan_eq_none_iff.mpr silent,
    scanFrom_failing silent failing, scanFrom_failing silent failing⟩

end VyperFront.Layout

namespace VyperFront.Layout

variable {κ π : Type} [Kind κ] {w : TabWidth} {s : State} {t : Token κ π}
  {before tokens : List (Token κ π)}

def openers (tokens : List (Token κ π)) : Nat :=
  tokens.countP fun t => Kind.role t.kind = .opener

def closers (tokens : List (Token κ π)) : Nat :=
  tokens.countP fun t => Kind.role t.kind = .closer

theorem openers_concat : openers (tokens ++ [t]) =
    openers tokens + if Kind.role t.kind = .opener then 1 else 0 := by
  simp [openers]

theorem closers_concat : closers (tokens ++ [t]) =
    closers tokens + if Kind.role t.kind = .closer then 1 else 0 := by
  simp [closers]

/-- Whether a token is a line break within brackets: some of the tokens right before it
open more than they close. -/
def Enclosed (before : List (Token κ π)) (t : Token κ π) : Prop :=
  Kind.role t.kind = .newline ∧ ∃ last, last <:+ before ∧ closers last < openers last

instance (before : List (Token κ π)) (t : Token κ π) : Decidable (Enclosed before t) :=
  decidable_of_iff (Kind.role t.kind = .newline ∧
    ∃ last ∈ before.tails, closers last < openers last) (by simp [Enclosed])

/-- The tokens without the line breaks within brackets, given the tokens before them. -/
def unenclosed (before : List (Token κ π)) : List (Token κ π) → List (Token κ π)
  | [] => []
  | t :: rest =>
    if Enclosed before t then unenclosed (before ++ [t]) rest
    else t :: unenclosed (before ++ [t]) rest

theorem unenclosed_append (before tokens more : List (Token κ π)) :
    unenclosed before (tokens ++ more) =
      unenclosed before tokens ++ unenclosed (before ++ tokens) more := by
  induction tokens generalizing before with
  | nil => simp [unenclosed]
  | cons t rest ih =>
    simp only [List.cons_append, unenclosed, ih, List.append_assoc, List.nil_append]
    split <;> rfl

theorem unenclosed_concat (tokens : List (Token κ π)) (t : Token κ π) :
    unenclosed [] (tokens ++ [t]) =
      unenclosed [] tokens ++ if Enclosed tokens t then [] else [t] := by
  rw [unenclosed_append, List.nil_append]
  simp only [unenclosed]

theorem indentation_depth : (indentation w s t).2.depth = s.depth := by
  by_cases deeper : s.current < widthAfter w t
  · rw [(indentation_of_lt deeper).2]
  · rw [(indentation_of_le (Nat.le_of_not_lt deeper)).2]

theorem step_depth : (step w s t).2.depth = depthAfter s.depth (Kind.role t.kind) := by
  rcases step_cases w s t with ⟨dropped, same⟩ | ⟨indents, same⟩ | ⟨_, _, same⟩
  · rw [same, dropped.1]
    rfl
  · rw [same, indents.1]
    exact indentation_depth
  · rw [same]

omit [Kind κ] in
private theorem exists_suffix_concat {holds : List (Token κ π) → Prop} :
    (∃ last, last <:+ before ++ [t] ∧ holds last) ↔
      holds [] ∨ ∃ last, last <:+ before ∧ holds (last ++ [t]) := by
  constructor
  · rintro ⟨last, suffix, fits⟩
    rcases List.suffix_concat_iff.mp suffix with rfl | ⟨shorter, rfl, within⟩
    · exact .inl fits
    · exact .inr ⟨shorter, within, fits⟩
  · rintro (fits | ⟨last, suffix, fits⟩)
    · exact ⟨[], List.nil_suffix, fits⟩
    · exact ⟨last ++ [t], List.suffix_append_self_iff.mpr suffix, fits⟩

/-- The depth is the greatest difference of opening and closing brackets among the last
tokens. -/
theorem le_depth_run_iff {n : Nat} :
    n ≤ (run w .start before).2.depth ↔
      ∃ last, last <:+ before ∧ closers last + n ≤ openers last := by
  induction before using List.reverseRecOn generalizing n with
  | nil => simp [State.start, closers, openers]
  | append_singleton before t ih =>
    rw [run_concat, step_depth, exists_suffix_concat]
    simp only [openers_concat, closers_concat]
    cases n with
    | zero => exact iff_of_true (Nat.zero_le _) (.inl (Nat.zero_le _))
    | succ n =>
      have none : ¬ closers ([] : List (Token κ π)) + (n + 1) ≤
          openers ([] : List (Token κ π)) := by
        simp [openers, closers]
      rw [or_iff_right none]
      cases Kind.role t.kind with
      | newline | other => exact ih
      | opener =>
        refine (Nat.add_le_add_iff_right.trans ih).trans
          (exists_congr fun last => and_congr_right fun _ => ?_)
        simp only [if_true, reduceCtorEq, if_false]
        omega
      | closer =>
        have one_more : n + 1 ≤ depthAfter (run w .start before).2.depth .closer ↔
            n + 2 ≤ (run w .start before).2.depth := by
          rw [depthAfter]
          omega
        refine (one_more.trans ih).trans
          (exists_congr fun last => and_congr_right fun _ => ?_)
        simp only [if_true, reduceCtorEq, if_false]
        omega

theorem depth_run_ne_zero_iff :
    (run w .start before).2.depth ≠ 0 ↔
      ∃ last, last <:+ before ∧ closers last < openers last :=
  Nat.one_le_iff_ne_zero.symm.trans le_depth_run_iff

theorem dropped_run_iff : Dropped (run w .start before).2 t ↔ Enclosed before t :=
  and_congr_right fun _ => depth_run_ne_zero_iff

end VyperFront.Layout
