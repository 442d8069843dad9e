import VyperFront.Layout.Named
import VyperFront.Proofs.Layout.Run

/-! Levels. Those that are open are told by the widths of the lines so far: each is a width
that no later line has fallen below. -/

namespace VyperFront.Layout

/-- Whether a value occurs among others without a smaller one after it. -/
def Minimum (values : List Nat) (level : Nat) : Prop :=
  ∃ earlier later, values = earlier ++ level :: later ∧ ∀ value ∈ later, level ≤ value

theorem minimum_concat_iff {values : List Nat} {v level : Nat} :
    Minimum (values ++ [v]) level ↔ level = v ∨ (Minimum values level ∧ level ≤ v) := by
  constructor
  · rintro ⟨earlier, later, split, least⟩
    rcases List.eq_nil_or_concat' later with rfl | ⟨later, last, rfl⟩
    · obtain ⟨_, final⟩ := List.append_inj' split rfl
      exact .inl (List.singleton_inj.mp final).symm
    · rw [← List.cons_append, ← List.append_assoc] at split
      obtain ⟨same, final⟩ := List.append_inj' split rfl
      obtain rfl := List.singleton_inj.mp final
      exact .inr ⟨⟨earlier, later, same, fun value member =>
        least value (List.mem_append_left _ member)⟩,
        least v (List.mem_append_right _ (List.mem_singleton_self v))⟩
  · rintro (rfl | ⟨⟨earlier, later, rfl, least⟩, below⟩)
    · exact ⟨values, [], rfl, fun _ member => nomatch member⟩
    · refine ⟨earlier, later ++ [v], by simp, fun value member => ?_⟩
      rcases List.mem_append.mp member with before | last
      · exact least value before
      · exact List.mem_singleton.mp last ▸ below

/-- The distinct values that no later one is smaller than, in increasing order. -/
structure SuffixMinima (values levels : List Nat) : Prop where
  increasing : levels.Pairwise (· < ·)
  mem_iff (level : Nat) : level ∈ levels ↔ Minimum values level

namespace SuffixMinima

variable {values levels : List Nat} {v top : Nat}

theorem zero : SuffixMinima [0] [0] where
  increasing := List.pairwise_singleton ..
  mem_iff level := by
    rw [← List.nil_append [0], minimum_concat_iff]
    simp [Minimum]

theorem push (minima : SuffixMinima values levels) (above : ∀ level ∈ levels, level < v) :
    SuffixMinima (values ++ [v]) (levels ++ [v]) where
  increasing := List.pairwise_append.mpr ⟨minima.increasing, List.pairwise_singleton ..,
    fun level member _ last => List.mem_singleton.mp last ▸ above level member⟩
  mem_iff level := by
    rw [minimum_concat_iff, ← minima.mem_iff, List.mem_append, List.mem_singleton, or_comm]
    exact or_congr_right (iff_self_and.mpr fun member => (above level member).le)

theorem pop (minima : SuffixMinima values levels) (member : v ∈ levels) :
    SuffixMinima (values ++ [v]) (levels.filter (· ≤ v)) where
  increasing := minima.increasing.filter _
  mem_iff level := by
    rw [minimum_concat_iff, ← minima.mem_iff, List.mem_filter, decide_eq_true_eq]
    refine (or_iff_right_of_imp ?_).symm
    rintro rfl
    exact ⟨member, le_rfl⟩

end SuffixMinima

private theorem getLast?_of_greatest {levels : List Nat} {v : Nat}
    (increasing : levels.Pairwise (· < ·)) (member : v ∈ levels)
    (greatest : ∀ level ∈ levels, level ≤ v) : levels.getLast? = some v := by
  rcases List.eq_nil_or_concat' levels with rfl | ⟨front, last, rfl⟩
  · cases member
  · rw [List.getLast?_concat]
    rcases List.mem_append.mp member with earlier | final
    · have less := (List.pairwise_append.mp increasing).2.2 v earlier last
        (List.mem_singleton_self last)
      have := greatest last (List.mem_append_right _ (List.mem_singleton_self last))
      omega
    · rw [List.mem_singleton.mp final]

theorem SuffixMinima.getLast? {values levels : List Nat} (minima : SuffixMinima values levels) :
    levels.getLast? = values.getLast? := by
  rcases List.eq_nil_or_concat' values with rfl | ⟨front, v, rfl⟩
  · have none : levels = [] := List.eq_nil_iff_forall_not_mem.mpr fun level member => by
      obtain ⟨earlier, later, split, _⟩ := (minima.mem_iff level).mp member
      simp at split
    rw [none]
  · rw [List.getLast?_concat]
    refine getLast?_of_greatest minima.increasing
      ((minima.mem_iff v).mpr (minimum_concat_iff.mpr (.inl rfl))) fun level member => ?_
    rcases minimum_concat_iff.mp ((minima.mem_iff level).mp member) with rfl | ⟨_, below⟩
    · exact le_rfl
    · exact below

section Close

variable {levels : List Nat} {width : Nat} {s : State}

theorem takeWhile_eq_filter (decreasing : levels.Pairwise (· > ·)) :
    levels.takeWhile (width < ·) = levels.filter (width < ·) := by
  induction levels with
  | nil => rfl
  | cons level rest ih =>
    obtain ⟨below, decreasing⟩ := List.pairwise_cons.mp decreasing
    by_cases deep : width < level
    · simp [deep, ih decreasing]
    · have none : rest.filter (width < ·) = [] :=
        List.filter_eq_nil_iff.mpr fun other member => by
          have := below other member
          simp
          omega
      simp [deep, none]

theorem kept_eq_filter (decreasing : levels.Pairwise (· > ·)) :
    kept width levels = levels.filter (· ≤ width) := by
  induction levels with
  | nil => rfl
  | cons level rest ih =>
    obtain ⟨below, decreasing⟩ := List.pairwise_cons.mp decreasing
    by_cases deep : width < level
    · simpa [kept, deep, Nat.not_le.mpr deep] using ih decreasing
    · have all : rest.filter (· ≤ width) = rest :=
        List.filter_eq_self.mpr fun other member => by
          have := below other member
          simp
          omega
      simp [kept, deep, Nat.le_of_not_lt deep, all]

theorem State.getLast?_openLevels (s : State) : s.openLevels.getLast? = some s.current := by
  obtain ⟨depth, levels⟩ := s
  cases levels with
  | nil => rfl
  | cons level rest =>
    rw [openLevels, List.reverse_cons, ← List.cons_append, List.getLast?_concat]
    rfl

theorem State.le_current {level : Nat} (increasing : s.openLevels.Pairwise (· < ·))
    (member : level ∈ s.openLevels) : level ≤ s.current := by
  obtain ⟨front, split⟩ := List.getLast?_eq_some_iff.mp s.getLast?_openLevels
  rw [split] at increasing member
  rcases List.mem_append.mp member with earlier | last
  · exact ((List.pairwise_append.mp increasing).2.2 level earlier _
      (List.mem_singleton_self _)).le
  · exact (List.mem_singleton.mp last).le

theorem State.decreasing (increasing : s.openLevels.Pairwise (· < ·)) :
    s.levels.Pairwise (· > ·) :=
  List.pairwise_reverse.mp (List.pairwise_cons.mp increasing).2

theorem deeper_eq_countP (increasing : s.openLevels.Pairwise (· < ·)) :
    deeper width s.levels = s.openLevels.countP (width < ·) := by
  rw [deeper, takeWhile_eq_filter (State.decreasing increasing), State.openLevels,
    List.countP_cons_of_neg (by simp), List.countP_reverse, List.countP_eq_length_filter]

theorem openLevels_kept (increasing : s.openLevels.Pairwise (· < ·)) :
    ({ s with levels := kept width s.levels } : State).openLevels =
      s.openLevels.filter (· ≤ width) := by
  simp only [State.openLevels]
  rw [kept_eq_filter (State.decreasing increasing), List.filter_cons_of_pos (by simp),
    List.filter_reverse]

/-- Closing levels comes out at a width just if it is one of those that are open. -/
theorem headD_kept_iff (increasing : s.openLevels.Pairwise (· < ·)) :
    (kept width s.levels).headD 0 = width ↔ width ∈ s.openLevels := by
  have last : (s.openLevels.filter (· ≤ width)).getLast? =
      some ((kept width s.levels).headD 0) := by
    rw [← openLevels_kept increasing]
    exact State.getLast?_openLevels _
  constructor
  · intro same
    rw [same] at last
    exact (List.mem_filter.mp (List.mem_of_getLast? last)).1
  · intro member
    have greatest := getLast?_of_greatest (increasing.filter (· ≤ width))
      (List.mem_filter.mpr ⟨member, by simp⟩) fun level kept => by
        simpa using (List.mem_filter.mp kept).2
    exact Option.some.inj (last.symm.trans greatest)

end Close

variable {κ π : Type} [Kind κ] {w : TabWidth} {s : State} {t : Token κ π}
  {before : List (Token κ π)}

/-- Whether a line begins after the token whose indentation counts, given the tokens before
it. -/
def Begins (before : List (Token κ π)) (t : Token κ π) : Prop :=
  Kind.role t.kind = .newline ∧ ¬ Enclosed before t ∧ '\n' ∈ t.text

instance (before : List (Token κ π)) (t : Token κ π) : Decidable (Begins before t) :=
  inferInstanceAs (Decidable (_ ∧ _))

/-- The widths of the lines that begin among the tokens. -/
def widths (w : TabWidth) (tokens : List (Token κ π)) : List Nat :=
  ((unenclosed [] tokens).filter fun t => Kind.role t.kind = .newline ∧ '\n' ∈ t.text).map
    (widthAfter w)

/-- The levels that are open after the tokens, outermost first. -/
def levelsAfter (w : TabWidth) (tokens : List (Token κ π)) : List Nat :=
  (run w .start tokens).2.openLevels

/-- What the layout has put out once it has looked at the tokens and at no more. -/
def outputs (w : TabWidth) (tokens : List (Token κ π)) : List (Event κ π) :=
  outputsOf (run w .start tokens).1

theorem widths_concat (before : List (Token κ π)) (t : Token κ π) :
    widths w (before ++ [t]) =
      widths w before ++ if Begins before t then [widthAfter w t] else [] := by
  rw [widths, unenclosed_concat, List.filter_append, List.map_append, ← widths]
  congr 1
  by_cases enclosed : Enclosed before t
  · have none : ¬ Begins before t := fun begins => begins.2.1 enclosed
    simp [enclosed, none]
  · by_cases newline : Kind.role t.kind = .newline ∧ '\n' ∈ t.text
    · have begins : Begins before t := ⟨newline.1, enclosed, newline.2⟩
      simp [enclosed, newline, begins]
    · have none : ¬ Begins before t := fun begins => newline ⟨begins.1, begins.2.2⟩
      simp [enclosed, newline, none]

theorem indents_run_iff : Indents (run w .start before).2 t ↔ Begins before t := by
  have outside : ¬ Dropped (run w .start before).2 t ↔ ¬ Enclosed before t :=
    not_congr dropped_run_iff
  constructor
  · rintro ⟨newline, depth, breaks⟩
    exact ⟨newline, outside.mp fun dropped => dropped.2 depth, breaks⟩
  · rintro ⟨newline, outer, breaks⟩
    refine ⟨newline, ?_, breaks⟩
    by_contra depth
    exact outside.mpr outer ⟨newline, depth⟩

theorem step_of_indents (indents : Indents s t) :
    step w s t = (.token t :: (indentation w s t).1, (indentation w s t).2) := by
  rcases step_cases w s t with ⟨dropped, _⟩ | ⟨_, same⟩ | ⟨_, none, _⟩
  · exact absurd indents.2.1 dropped.2
  · exact same
  · exact absurd indents none

theorem outputs_concat (before : List (Token κ π)) (t : Token κ π) :
    outputs w (before ++ [t]) =
      outputs w before ++ outputsOf (step w (run w .start before).2 t).1 := by
  rw [outputs, run_concat, outputsOf_append, ← outputs]

theorem suffixMinima_indentation {values : List Nat}
    (minima : SuffixMinima values s.openLevels)
    (silent : failureOf? (indentation w s t).1 = none) :
    SuffixMinima (values ++ [widthAfter w t]) (indentation w s t).2.openLevels := by
  by_cases above : s.current < widthAfter w t
  · have levels : (indentation w s t).2.openLevels = s.openLevels ++ [widthAfter w t] := by
      rw [(indentation_of_lt above).2, State.openLevels, List.reverse_cons]
      rfl
    rw [levels]
    exact minima.push fun level member =>
      (State.le_current minima.increasing member).trans_lt above
  · obtain ⟨out, next⟩ := indentation_of_le (Nat.le_of_not_lt above)
    rw [← failureOf?_outputsOf, out] at silent
    have aligned : (kept (widthAfter w t) s.levels).headD 0 = widthAfter w t := by
      by_contra between
      rw [if_neg between, failureOf?_append, failureOf?_replicate] at silent
      cases silent
    rw [next, openLevels_kept minima.increasing]
    exact minima.pop ((headD_kept_iff minima.increasing).mp aligned)

/-- As long as the layout does not fail, the open levels are the minima of the widths. -/
theorem suffixMinima_levelsAfter (silent : failureOf? (run w .start before).1 = none) :
    SuffixMinima (0 :: widths w before) (levelsAfter w before) := by
  induction before using List.reverseRecOn with
  | nil => exact .zero
  | append_singleton before t ih =>
    rw [run_concat, failureOf?_append, Option.or_eq_none_iff] at silent
    obtain ⟨earlier, here⟩ := silent
    rw [levelsAfter, run_concat, widths_concat]
    by_cases begins : Begins before t
    · rw [step_of_indents (indents_run_iff.mpr begins)] at here ⊢
      rw [if_pos begins]
      exact suffixMinima_indentation (ih earlier) here
    · rw [if_neg begins, List.append_nil]
      rcases step_cases w (run w .start before).2 t with ⟨_, same⟩ | ⟨indents, _⟩ | ⟨_, _, same⟩
      · rw [same]
        exact ih earlier
      · exact absurd (indents_run_iff.mp indents) begins
      · rw [same]
        exact ih earlier

/-- The open levels are the widths that no later line has fallen below. A line that is
deeper than all of them opens a level. Any other line closes those that are deeper, which
are never all, and the layout fails just if it does not come out at one of them. It then
names the width, the levels that were open before, and the line on which the token ends. -/
theorem scan_levels [HasEndLine π] (w : TabWidth) (before : List (Token κ π))
    (silent : failureOf? (scan w before) = none) :
    SuffixMinima (0 :: widths w before) (levelsAfter w before) ∧
      (levelsAfter w before).head? = some 0 ∧
      ∃ top, (0 :: widths w before).getLast? = some top ∧
        (levelsAfter w before).getLast? = some top ∧
        ∀ t, Begins before t →
          (top < widthAfter w t → outputs w (before ++ [t]) = outputs w before ++
            [.token t, .token ⟨Kind.indent, Text.lastLine t.text, t.place⟩]) ∧
          (widthAfter w t ≤ top → outputs w (before ++ [t]) = outputs w before ++ .token t ::
              (List.replicate ((levelsAfter w before).countP (widthAfter w t < ·))
                  (.token ⟨Kind.dedent, Text.lastLine t.text, t.place⟩) ++
                if widthAfter w t ∈ levelsAfter w before then []
                else [.fail ⟨widthAfter w t, levelsAfter w before, t.place⟩])) ∧
          (∀ e, failureOf? (outputs w (before ++ [t])) = some e → e.column = widthAfter w t ∧
            e.expected = levelsAfter w before ∧ e.line = t.endLine) ∧
          (levelsAfter w before).countP (widthAfter w t < ·) < (levelsAfter w before).length ∧
          ∀ rest, ∃ later,
            outputsOf (scan w (before ++ t :: rest)) = outputs w (before ++ [t]) ++ later ∧
            (failureOf? (outputs w (before ++ [t])) ≠ none → later = []) := by
  have quiet := failureOf?_scan_eq_none_iff.mp silent
  have minima := suffixMinima_levelsAfter quiet
  have top := (run w .start before).2.getLast?_openLevels
  refine ⟨minima, rfl, _, minima.getLast?.symm.trans top, top, fun t begins => ?_⟩
  have indents : Indents (run w .start before).2 t := indents_run_iff.mpr begins
  have steps := step_of_indents (w := w) indents
  refine ⟨fun above => ?_, fun shallow => ?_, fun e fails => ?_, ?_, fun rest => ?_⟩
  · rw [outputs_concat, steps, outputsOf_token, (indentation_of_lt above).1]
  · rw [outputs_concat, steps, outputsOf_token, (indentation_of_le shallow).1,
      deeper_eq_countP minima.increasing, if_congr (headD_kept_iff minima.increasing) rfl rfl]
    rfl
  · rw [outputs, failureOf?_outputsOf, run_concat, failureOf?_append, quiet,
      Option.none_or] at fails
    obtain ⟨_, place, column, expected, _⟩ := fails_of_step fails
    exact ⟨column, expected, congrArg HasEndLine.endLine place⟩
  · rw [levelsAfter, State.openLevels, List.countP_cons_of_neg (by simp), List.length_cons]
    exact Nat.lt_succ_of_le List.countP_le_length
  · obtain ⟨later, split, stops⟩ := exists_later quiet t rest
    refine ⟨outputsOf later, ?_, fun fails => ?_⟩
    · rw [split, outputsOf_append, ← outputs]
    · rw [outputs, failureOf?_outputsOf] at fails
      rw [stops fails, outputsOf_nil]

/-- Two blocks, each within the one before. -/
private def blocks : List (Token KindName Extent) :=
  [⟨⟨"_NEWLINE"⟩, "\n    ".toList, ⟨⟨2, 1, 3⟩, ⟨7, 2, 5⟩⟩⟩,
   ⟨⟨"_NEWLINE"⟩, "# b\n\t".toList, ⟨⟨9, 2, 7⟩, ⟨14, 3, 2⟩⟩⟩]

/-- A line after them that comes out between their levels. -/
private def aside : Token KindName Extent :=
  ⟨⟨"_NEWLINE"⟩, "\n  ".toList, ⟨⟨16, 3, 4⟩, ⟨19, 4, 3⟩⟩⟩

theorem scan_levels_between :
    failureOf? (scan .eight blocks) = none ∧
      outputs .eight (blocks ++ [aside]) =
        outputs .eight blocks ++ [.token aside,
          .token ⟨⟨"_DEDENT"⟩, "  ".toList, aside.place⟩,
          .token ⟨⟨"_DEDENT"⟩, "  ".toList, aside.place⟩,
          .fail ⟨2, [0, 4, 8], aside.place⟩] ∧
      ∃ e, failureOf? (outputs .eight (blocks ++ [aside])) = some e ∧ e.line = some 4 := by
  have silent : failureOf? (scan .eight blocks) = none := by decide
  obtain ⟨_, _, top, last, _, line⟩ := scan_levels .eight blocks silent
  have eight : top = 8 := Option.some.inj (last.symm.trans (by decide))
  obtain ⟨_, shallow, failure, _⟩ := line aside (by decide)
  have fails : failureOf? (outputs .eight (blocks ++ [aside])) =
      some ⟨2, [0, 4, 8], aside.place⟩ := by decide
  exact ⟨silent, shallow (by subst eight; decide), _, fails, (failure _ fails).2.2⟩

end VyperFront.Layout
