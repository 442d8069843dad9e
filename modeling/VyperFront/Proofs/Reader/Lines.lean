import VyperFront.Proofs.Grammar.LineEnd
import VyperFront.Proofs.Layout.Level
import VyperFront.Proofs.Reader.Items

namespace VyperFront

open Stack Layout Lexeme VyperFront.Graph

namespace Layout

variable {w : TabWidth} {tokens before : List SourceToken} {t : SourceToken}

/-- No bracket is open where the last token to come out ends a line. -/
theorem depth_of_endsLine (ends : tokensOf (run w .start tokens).1 = [] ∨
    EndsLine (tokensOf (run w .start tokens).1)) : (run w .start tokens).2.depth = 0 := by
  induction tokens using List.reverseRecOn with
  | nil => rfl
  | append_singleton before t ih =>
    rw [run_concat] at ends ⊢
    rcases step_cases w (run w .start before).2 t with ⟨_, same⟩ | ⟨indents, same⟩ | ⟨plain, _, same⟩
    · rw [same] at ends ⊢
      exact ih (by simpa using ends)
    · rw [same]
      exact indentation_depth.trans indents.2.1
    · rw [same] at ends ⊢
      simp only [tokensOf_append, tokensOf_token, tokensOf_nil, List.append_eq_nil_iff,
        List.cons_ne_nil, and_false, false_or] at ends
      rcases EndsLine.concat_cases ends with newline | ⟨dedent, earlier⟩
      · have outside : (run w .start before).2.depth = 0 := by
          by_contra inside
          exact plain ⟨by rw [newline]; rfl, inside⟩
        rw [newline]
        exact outside
      · rw [dedent]
        exact ih (.inr earlier)

/-- No level is open where a line begins in the first column. -/
theorem levels_of_flat (silent : failureOf? (run w .start (before ++ [t])).1 = none)
    (begins : Begins before t) (flat : widthAfter w t = 0) :
    (run w .start (before ++ [t])).2.levels = [] := by
  have minima := suffixMinima_levelsAfter silent
  have increasing := minima.increasing
  have last := minima.getLast?
  rw [widths_concat, if_pos begins, flat, ← List.cons_append, List.getLast?_concat] at last
  rw [levelsAfter] at increasing last
  rw [State.openLevels, List.pairwise_cons] at increasing
  rw [State.getLast?_openLevels] at last
  cases levels : (run w .start (before ++ [t])).2.levels with
  | nil => rfl
  | cons level rest =>
    have here : level = 0 := by simpa [State.current, levels] using last
    have positive := increasing.1 level (by simp [levels])
    omega

/-- With no level open it does not matter where the last token was. -/
theorem scanFrom_start (last : Option Extent) :
    scanFrom w .start last tokens = scan w tokens := by
  cases tokens with
  | nil => cases last <;> rfl
  | cons t rest => rfl

end Layout

namespace Stack

variable {stack moved : Stack} {t : SourceToken} {input : List SourceToken}

theorem Feeds.exists_leads (feeds : Feeds stack t (.shifted moved)) :
    ∃ number, Leads number (.terminal t.kind) moved.top := by
  generalize shifted : Result.shifted moved = result at feeds
  induction feeds with
  | accept => cases shifted
  | shift leads =>
    cases shifted
    exact ⟨_, leads⟩
  | reduce _ _ _ _ ih => exact ih shifted

theorem Shifts.exists_leads (shifts : Shifts stack (input ++ [t]) moved) :
    ∃ number, Leads number (.terminal t.kind) moved.top := by
  obtain ⟨middle, _, last⟩ := shifts_append_iff.mp shifts
  cases last with
  | cons feeds rest =>
    cases rest
    exact feeds.exists_leads

theorem rests_of_derives {d : Derivation} (derives : d.Derives .sourceFile input)
    (shifts : Shifts [] input stack) : Rests stack := by
  rcases derives.cases_sourceFile with rfl | ⟨items, valid, symbol, rfl⟩
  · obtain rfl : [] = input := derives.yield
    cases shifts
    exact idle_nil.rests
  · obtain rfl : items.yield = input := (List.append_nil _).symm.trans derives.yield
    exact rests_of_shifts valid symbol shifts

/-- Whether the token is spelled like one that goes on with a condition. -/
def Continues (t : SourceToken) : Prop := t.text = "elif".toList ∨ t.text = "else".toList

/-- After a line the stack admits all tokens but those that go on with a condition. -/
theorem admits_of_endsLine (shifts : Shifts [] input stack) (ends : EndsLine input)
    (apart : ¬ Continues t) : stack.Admits t := by
  obtain ⟨front, last, rfl, ending⟩ := ends.exists_last
  obtain ⟨number, leads⟩ := shifts.exists_leads
  intro k spelled expected
  obtain ⟨notIndent, notDedent, inside⟩ := TerminalSet.contains_spelled.mp spelled
  have line : Symbol.terminal last.kind = .terminal .newline ∨
      Symbol.terminal last.kind = .terminal .dedent :=
    ending.imp (congrArg Symbol.terminal) (congrArg Symbol.terminal)
  refine (follows_of_expected line leads inside expected).imp_right fun goesOn => ?_
  rw [continuations, TerminalSet.contains_ofList] at goesOn
  have word : k = .kwElif ∨ k = .kwElse := by simpa [notIndent, notDedent] using goesOn
  refine ⟨by rcases word with rfl | rfl <;> rfl, fun listed => apart ?_⟩
  obtain ⟨spelling, same, text⟩ := Lexer.mem_literals.mp listed
  rcases word with rfl | rfl
  · cases same
    exact .inl text.symm
  · cases same
    exact .inr text.symm

end Stack

theorem Layout.depth_of_derives {w : TabWidth} {tokens : List SourceToken} {d : Derivation}
    (silent : failureOf? (scan w tokens) = none)
    (derives : d.Derives .sourceFile (tokensOf (scan w tokens))) :
    (Layout.run w .start tokens).2.depth = 0 := by
  apply depth_of_endsLine
  rw [scan_of_silent silent, tokensOf_append] at derives
  refine derives.endsLine.imp (fun none => (List.append_eq_nil_iff.mp none).1) fun ends => ?_
  exact ends.of_append_dedents fun u member => kind_of_mem_scanFrom_nil member

namespace Reading

variable {r : Reading} {text : Text} {before tokens : List SourceToken} {t : SourceToken} {b : Stage}
  {d : Derivation}

/-- Where a source file ends with a line break, nothing is open. -/
theorem Passes.at_line (passes : r.Passes (.start text) (before ++ [t]) b)
    (newline : t.kind = .newline) (breaks : '\n' ∈ t.text) (flat : widthAfter r.tabWidth t = 0)
    (derives : d.Derives .sourceFile (tokensOf (scan r.tabWidth (before ++ [t])))) :
    b.layout = .start ∧
      tokensOf (scan r.tabWidth (before ++ [t])) =
        tokensOf (Layout.run r.tabWidth .start (before ++ [t])).1 ∧
      EndsLine (tokensOf (Layout.run r.tabWidth .start (before ++ [t])).1) := by
  obtain ⟨silent, layout, _⟩ := passes.shifts
  have whole := scan_of_silent (failureOf?_scan_eq_none_iff.mpr silent)
  have outside := depth_of_derives (failureOf?_scan_eq_none_iff.mpr silent) derives
  have begins : Begins before t := by
    refine ⟨by rw [newline]; rfl, fun enclosed => ?_, breaks⟩
    have inside := (dropped_run_iff (w := r.tabWidth).mpr enclosed).2
    rw [run_concat, step_depth, newline] at outside
    exact inside outside
  have levels := levels_of_flat silent begins flat
  have state : (Layout.run r.tabWidth .start (before ++ [t])).2 = .start := by
    generalize (Layout.run r.tabWidth .start (before ++ [t])).2 = s at outside levels ⊢
    cases s
    cases outside
    cases levels
    rfl
  have same : tokensOf (scan r.tabWidth (before ++ [t])) =
      tokensOf (Layout.run r.tabWidth .start (before ++ [t])).1 := by
    rw [whole, state, tokensOf_append, scanFrom_start]
    exact List.append_nil _
  refine ⟨layout.trans state, same, same ▸ derives.endsLine.resolve_left fun none => ?_⟩
  rw [same, run_concat, step_of_indents (indents_run_iff.mpr begins)] at none
  simp at none

/-- There the stack rests, and admits what does not go on with a condition. -/
theorem Passes.rests_at_line (passes : r.Passes (.start text) (before ++ [t]) b)
    (newline : t.kind = .newline) (breaks : '\n' ∈ t.text) (flat : widthAfter r.tabWidth t = 0)
    (derives : d.Derives .sourceFile (tokensOf (scan r.tabWidth (before ++ [t])))) :
    Rests b.stack ∧ ∀ u, ¬ Continues u → b.stack.Admits u := by
  obtain ⟨_, same, ends⟩ := passes.at_line newline breaks flat derives
  obtain ⟨_, _, shifts⟩ := passes.shifts
  rw [same] at derives
  exact ⟨rests_of_derives derives shifts, fun u => admits_of_endsLine shifts ends⟩

end Reading

end VyperFront
