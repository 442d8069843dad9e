import VyperFront.Proofs.Layout.Level

/-! Tab widths. The layout only compares indentations with each other, and with none. Where two
tab widths put them in the same order, it brings out the same tokens by both of them. -/

namespace VyperFront

namespace TabWidth

/-- Whether both tab widths put the texts in the same order. -/
def OrdersAlike (v w : TabWidth) (texts : List Text) : Prop :=
  ∀ a ∈ texts, ∀ b ∈ texts,
    compare (v.measure a) (v.measure b) = compare (w.measure a) (w.measure b)

instance (v w : TabWidth) (texts : List Text) : Decidable (v.OrdersAlike w texts) :=
  inferInstanceAs (Decidable (∀ a ∈ texts, ∀ b ∈ texts, _))

variable {v w : TabWidth} {texts more : List Text} {a b : Text}

namespace OrdersAlike

theorem mono (alike : v.OrdersAlike w more) (part : texts ⊆ more) : v.OrdersAlike w texts :=
  fun a first b second => alike a (part first) b (part second)

theorem lt_iff (alike : v.OrdersAlike w texts) (first : a ∈ texts) (second : b ∈ texts) :
    v.measure a < v.measure b ↔ w.measure a < w.measure b := by
  rw [← Nat.compare_eq_lt, ← Nat.compare_eq_lt, alike a first b second]

theorem eq_iff (alike : v.OrdersAlike w texts) (first : a ∈ texts) (second : b ∈ texts) :
    v.measure a = v.measure b ↔ w.measure a = w.measure b := by
  rw [← Nat.compare_eq_eq, ← Nat.compare_eq_eq, alike a first b second]

end OrdersAlike

@[simp] theorem measure_nil (w : TabWidth) : w.measure [] = 0 := by simp [measure]

theorem OrdersAlike.of_no_tab (v w : TabWidth) (spaces : ∀ a ∈ texts, '\t' ∉ a) :
    v.OrdersAlike w texts := by
  have same (u : TabWidth) : ∀ a ∈ texts, u.measure a = a.count ' ' := by
    intro a member
    rw [measure, List.count_eq_zero_of_not_mem (spaces a member)]
    simp
  intro a first b second
  rw [same v a first, same v b second, same w a first, same w b second]

theorem OrdersAlike.of_no_space (v w : TabWidth) (tabs : ∀ a ∈ texts, ' ' ∉ a) :
    v.OrdersAlike w texts := by
  have order (u : TabWidth) : ∀ a ∈ texts, ∀ b ∈ texts,
      compare (u.measure a) (u.measure b) = compare (a.count '\t') (b.count '\t') := by
    intro a first b second
    rw [measure, measure, List.count_eq_zero_of_not_mem (tabs a first),
      List.count_eq_zero_of_not_mem (tabs b second), Nat.zero_add, Nat.zero_add]
    rcases lt_trichotomy (a.count '\t') (b.count '\t') with less | same | greater
    · rw [Nat.compare_eq_lt.mpr less]
      exact Nat.compare_eq_lt.mpr (Nat.mul_lt_mul_of_pos_right less u.pos)
    · rw [same, Nat.compare_eq_eq.mpr rfl, Nat.compare_eq_eq.mpr rfl]
    · rw [Nat.compare_eq_gt.mpr greater]
      exact Nat.compare_eq_gt.mpr (Nat.mul_lt_mul_of_pos_right greater u.pos)
  intro a first b second
  rw [order v a first b second, order w a first b second]

end TabWidth

namespace Layout

variable {κ π : Type} {v w : TabWidth} {texts stack : List Text} {text : Text} {s u : State}
  {events more others further : List (Event κ π)}

/-- The levels of both states are the widths of the same indentations. -/
structure Levelled (v w : TabWidth) (texts : List Text) (s u : State) : Prop where
  depth : u.depth = s.depth
  levels : ∃ stack ⊆ texts, s.levels = stack.map v.measure ∧ u.levels = stack.map w.measure

theorem levelled_start (v w : TabWidth) (texts : List Text) : Levelled v w texts .start .start :=
  ⟨rfl, [], List.nil_subset texts, rfl, rfl⟩

theorem Levelled.mono {all : List Text} (levelled : Levelled v w texts s u) (part : texts ⊆ all) :
    Levelled v w all s u := by
  obtain ⟨stack, inside, first, second⟩ := levelled.levels
  exact ⟨levelled.depth, stack, List.Subset.trans inside part, first, second⟩

theorem headD_map_measure (w : TabWidth) (stack : List Text) :
    (stack.map w.measure).headD 0 = w.measure (stack.headD []) := by
  cases stack with
  | nil => exact w.measure_nil.symm
  | cons top rest => rfl

theorem headD_mem (inside : stack ⊆ texts) : stack.headD [] ∈ [] :: texts := by
  cases stack with
  | nil => exact List.mem_cons_self
  | cons top rest => exact List.mem_cons_of_mem _ (inside List.mem_cons_self)

theorem deeper_alike (alike : v.OrdersAlike w texts) (member : text ∈ texts)
    (inside : stack ⊆ texts) :
    deeper (v.measure text) (stack.map v.measure) = deeper (w.measure text) (stack.map w.measure) ∧
      ∃ left ⊆ stack, kept (v.measure text) (stack.map v.measure) = left.map v.measure ∧
        kept (w.measure text) (stack.map w.measure) = left.map w.measure := by
  induction stack with
  | nil => exact ⟨rfl, [], List.nil_subset _, rfl, rfl⟩
  | cons top rest ih =>
    obtain ⟨here, later⟩ := List.cons_subset.mp inside
    have same := alike.lt_iff member here
    by_cases deep : v.measure text < v.measure top
    · obtain ⟨count, left, part, first, second⟩ := ih later
      have also := same.mp deep
      refine ⟨?_, left, List.subset_cons_of_subset top part, ?_, ?_⟩
      · simpa [deeper, deep, also] using count
      · simpa [kept, deep] using first
      · simpa [kept, also] using second
    · have also := mt same.mpr deep
      exact ⟨by simp [deeper, deep, also], top :: rest, List.Subset.refl _, by simp [kept, deep],
        by simp [kept, also]⟩

/-- Where the layout fails, and at how many levels that are open. -/
def BadDedent.site (e : BadDedent π) : π × Nat := (e.place, e.expected.length)

/-- The same tokens come out, and both fail at the same site or neither does. -/
structure SameOutcome (events others : List (Event κ π)) : Prop where
  tokens : tokensOf others = tokensOf events
  failure : (failureOf? others).map BadDedent.site = (failureOf? events).map BadDedent.site

namespace SameOutcome

theorem refl (events : List (Event κ π)) : SameOutcome events events := ⟨rfl, rfl⟩

theorem append (same : SameOutcome events others) (also : SameOutcome more further) :
    SameOutcome (events ++ more) (others ++ further) where
  tokens := by rw [tokensOf_append, tokensOf_append, same.tokens, also.tokens]
  failure := by
    rw [failureOf?_append, failureOf?_append, Option.map_or, Option.map_or, same.failure,
      also.failure]

theorem of_outputsOf (same : SameOutcome (outputsOf events) (outputsOf others)) :
    SameOutcome events others where
  tokens := by simpa using same.tokens
  failure := by simpa using same.failure

theorem silent_iff (same : SameOutcome events others) :
    failureOf? others = none ↔ failureOf? events = none := by
  rw [← Option.map_eq_none_iff (f := BadDedent.site), same.failure, Option.map_eq_none_iff]

end SameOutcome

variable [Kind κ] {t : Token κ π} {before rest tokens : List (Token κ π)}

/-- The indentations of the lines that begin among the tokens. -/
def indentations (tokens : List (Token κ π)) : List Text :=
  ((unenclosed [] tokens).filter fun t => Kind.role t.kind = .newline ∧ '\n' ∈ t.text).map
    fun t => Text.lastLine t.text

theorem indentations_append (before rest : List (Token κ π)) :
    indentations before ⊆ indentations (before ++ rest) := by
  rw [indentations, indentations, unenclosed_append, List.filter_append, List.map_append]
  exact List.subset_append_left _ _

theorem mem_indentations (begins : Begins before t) :
    Text.lastLine t.text ∈ indentations (before ++ [t]) := by
  rw [indentations, unenclosed_concat, if_neg begins.2.1]
  refine List.mem_map.mpr ⟨t, List.mem_filter.mpr ⟨by simp, ?_⟩, rfl⟩
  simp [begins.1, begins.2.2]

/-- A line does the same to levels that are the widths of the same indentations. -/
theorem Levelled.indentation (levelled : Levelled v w texts s u)
    (alike : v.OrdersAlike w ([] :: texts)) (member : Text.lastLine t.text ∈ texts) :
    SameOutcome (indentation v s t).1 (indentation w u t).1 ∧
      Levelled v w texts (indentation v s t).2 (indentation w u t).2 := by
  obtain ⟨stack, inside, first, second⟩ := levelled.levels
  have here := List.mem_cons_of_mem [] member
  have top := headD_mem inside
  have current : s.current = v.measure (stack.headD []) := by
    rw [State.current, first, headD_map_measure]
  have also : u.current = w.measure (stack.headD []) := by
    rw [State.current, second, headD_map_measure]
  by_cases above : s.current < widthAfter v t
  · have higher : u.current < widthAfter w t := by
      rw [current] at above
      rw [also]
      exact (alike.lt_iff top here).mp above
    obtain ⟨out, state⟩ := indentation_of_lt above
    obtain ⟨outs, next⟩ := indentation_of_lt higher
    refine ⟨.of_outputsOf ?_, ?_⟩
    · rw [out, outs]
      exact .refl _
    · rw [state, next]
      exact ⟨levelled.depth, Text.lastLine t.text :: stack, List.cons_subset.mpr ⟨member, inside⟩,
        congrArg _ first, congrArg _ second⟩
  · have lower : ¬ u.current < widthAfter w t := by
      rw [current] at above
      rw [also]
      exact mt (alike.lt_iff top here).mpr above
    obtain ⟨out, state⟩ := indentation_of_le (Nat.le_of_not_lt above)
    obtain ⟨outs, next⟩ := indentation_of_le (Nat.le_of_not_lt lower)
    obtain ⟨count, left, part, remain, keeps⟩ :=
      deeper_alike (alike.mono (List.subset_cons_self _ _)) member inside
    rw [widthAfter, first] at out state
    rw [widthAfter, second] at outs next
    refine ⟨.of_outputsOf ?_, ?_⟩
    · -- Both come out at the level on top of those that are left, or neither does.
      have aligned := alike.eq_iff (headD_mem (List.Subset.trans part inside)) here
      rw [out, outs, count, remain, keeps, headD_map_measure, headD_map_measure,
        if_congr aligned rfl rfl]
      refine .append (.refl _) ?_
      split
      · exact .refl _
      · exact ⟨rfl, by simp [BadDedent.site, State.openLevels, first, second]⟩
    · rw [state, next]
      exact ⟨levelled.depth, left, List.Subset.trans part inside, remain, keeps⟩

/-- Brackets are counted the same, and lines do the same. -/
theorem Levelled.step (levelled : Levelled v w texts s u)
    (alike : v.OrdersAlike w ([] :: texts))
    (member : Indents s t → Text.lastLine t.text ∈ texts) :
    SameOutcome (step v s t).1 (step w u t).1 ∧
      Levelled v w texts (step v s t).2 (step w u t).2 := by
  have dropped : Dropped u t ↔ Dropped s t := by rw [Dropped, Dropped, levelled.depth]
  have indents : Indents u t ↔ Indents s t := by rw [Indents, Indents, levelled.depth]
  rcases step_cases v s t with ⟨here, same⟩ | ⟨here, same⟩ | ⟨plain, level, same⟩
  · rcases step_cases w u t with ⟨_, also⟩ | ⟨there, _⟩ | ⟨other, _⟩
    · rw [same, also]
      exact ⟨.refl _, levelled⟩
    · exact absurd (indents.mp there).2.1 here.2
    · exact absurd (dropped.mpr here) other
  · obtain ⟨outcome, levels⟩ := levelled.indentation alike (member here)
    rw [same, step_of_indents (indents.mpr here)]
    exact ⟨.append (.refl [.token t]) outcome, levels⟩
  · rcases step_cases w u t with ⟨there, _⟩ | ⟨there, _⟩ | ⟨_, _, also⟩
    · exact absurd (dropped.mp there) plain
    · exact absurd (indents.mp there) level
    · rw [same, also]
      exact ⟨.refl _, congrArg (depthAfter · (Kind.role t.kind)) levelled.depth, levelled.levels⟩

/-- A stretch of tokens brings out the same by both tab widths. -/
theorem run_of_ordersAlike (alike : v.OrdersAlike w ([] :: indentations before)) :
    SameOutcome (run v .start before).1 (run w .start before).1 ∧
      Levelled v w (indentations before) (run v .start before).2 (run w .start before).2 := by
  induction before using List.reverseRecOn with
  | nil => exact ⟨.refl _, levelled_start v w _⟩
  | append_singleton before t ih =>
    have part := indentations_append before [t]
    obtain ⟨outcome, levelled⟩ := ih (alike.mono (List.cons_subset_cons [] part))
    obtain ⟨here, next⟩ := (levelled.mono part).step (t := t) alike
      fun indents => mem_indentations (indents_run_iff.mp indents)
    rw [run_concat, run_concat]
    exact ⟨outcome.append here, next⟩

/-- Whether the layout fails at the token, after those before it. -/
structure FailsAt (w : TabWidth) (before : List (Token κ π)) (t : Token κ π)
    (e : BadDedent π) : Prop where
  silent : failureOf? (scan w before) = none
  fails : failureOf? (scan w (before ++ [t])) = some e
  place : e.place = t.place

/-- A run that fails with its last token is what comes out, whatever follows. -/
theorem failsAt_of_run {e : BadDedent π} (silent : failureOf? (run w .start before).1 = none)
    (fails : failureOf? (run w .start (before ++ [t])).1 = some e) :
    FailsAt w before t e ∧
      ∀ rest, scan w (before ++ t :: rest) = (run w .start (before ++ [t])).1 := by
  have here := fails
  rw [run_concat, failureOf?_append, silent, Option.none_or] at here
  have stops (rest : List (Token κ π)) : scan w (before ++ t :: rest) =
      (run w .start (before ++ [t])).1 :=
    scanFrom_failing silent (by rw [here]; exact Option.some_ne_none e)
  obtain ⟨_, place, _⟩ := fails_of_step here
  exact ⟨⟨failureOf?_scan_eq_none_iff.mpr silent, by rw [stops [], fails], place⟩, stops⟩

theorem finish_of_levelled (levelled : Levelled v w texts s u) (last : Option π) :
    tokensOf (scanFrom (κ := κ) w u last []) = tokensOf (scanFrom v s last []) := by
  have closing (place : π) (levels others : List Nat) (same : others.length = levels.length) :
      finish (κ := κ) place others = finish place levels := by
    induction levels generalizing others with
    | nil => rw [List.length_eq_zero_iff.mp same]
    | cons level rest ih =>
      obtain ⟨other, more, rfl⟩ := List.exists_cons_of_length_eq_add_one same
      have shorter : more.length = rest.length := Nat.succ.inj same
      rw [finish, finish, ih more shorter, shorter]
  obtain ⟨stack, _, first, second⟩ := levelled.levels
  cases last with
  | none => rfl
  | some place => rw [scanFrom, scanFrom, closing place s.levels u.levels (by simp [first, second])]

/-- The layout brings out the same tokens by two tab widths that put the indentations in the same
order, also where they are compared with none. Either it does not fail by any of them, or it
fails by both at the same token, with as many levels that are open. If there are no tabs in the
indentations, or no spaces, that is so for any two tab widths. -/
theorem scan_of_ordersAlike
    (alike : v.OrdersAlike w ([] :: indentations tokens) ∨
      (∀ text ∈ indentations tokens, '\t' ∉ text) ∨ ∀ text ∈ indentations tokens, ' ' ∉ text) :
    tokensOf (scan w tokens) = tokensOf (scan v tokens) ∧
      ((failureOf? (scan v tokens) = none ∧ failureOf? (scan w tokens) = none) ∨
        ∃ before t rest e f, tokens = before ++ t :: rest ∧
          (FailsAt v before t e ∧ failureOf? (scan v tokens) = some e) ∧
          (FailsAt w before t f ∧ failureOf? (scan w tokens) = some f) ∧
          f.place = e.place ∧ f.expected.length = e.expected.length) := by
  have ordered : v.OrdersAlike w ([] :: indentations tokens) := by
    rcases alike with ordered | tabless | spaceless
    · exact ordered
    · exact .of_no_tab v w (List.forall_mem_cons.mpr ⟨List.not_mem_nil, tabless⟩)
    · exact .of_no_space v w (List.forall_mem_cons.mpr ⟨List.not_mem_nil, spaceless⟩)
  by_cases silent : failureOf? (scan v tokens) = none
  · obtain ⟨outcome, levelled⟩ := run_of_ordersAlike ordered
    have also : failureOf? (scan w tokens) = none := failureOf?_scan_eq_none_iff.mpr
      (outcome.silent_iff.mpr (failureOf?_scan_eq_none_iff.mp silent))
    refine ⟨?_, .inl ⟨silent, also⟩⟩
    rw [scan_of_silent silent, scan_of_silent also, tokensOf_append, tokensOf_append,
      outcome.tokens, finish_of_levelled levelled]
  · obtain ⟨before, t, rest, rfl, earlier, stops, _⟩ := exists_failing_scan silent
    have quiet := failureOf?_scan_eq_none_iff.mp earlier
    obtain ⟨e, fails⟩ := Option.ne_none_iff_exists'.mp silent
    have front := indentations_append before (t :: rest)
    have through : indentations (before ++ [t]) ⊆ indentations (before ++ t :: rest) := by
      simpa using indentations_append (before ++ [t]) rest
    obtain ⟨first, _⟩ := run_of_ordersAlike (ordered.mono (List.cons_subset_cons [] front))
    obtain ⟨outcome, _⟩ := run_of_ordersAlike (ordered.mono (List.cons_subset_cons [] through))
    rw [stops] at fails ⊢
    obtain ⟨f, also, site⟩ : ∃ f, failureOf? (run w .start (before ++ [t])).1 = some f ∧
        f.site = e.site := by
      have failure := outcome.failure
      rw [fails] at failure
      exact Option.map_eq_some_iff.mp failure
    obtain ⟨here, _⟩ := failsAt_of_run quiet fails
    obtain ⟨there, final⟩ := failsAt_of_run (first.silent_iff.mpr quiet) also
    rw [final rest]
    exact ⟨outcome.tokens, .inr ⟨before, t, rest, e, f, rfl, ⟨here, fails⟩, ⟨there, also⟩,
      congrArg Prod.fst site, congrArg Prod.snd site⟩⟩

/-- Two blocks, each within the one before, and a line that comes out between their levels. -/
private def mixed : List (Token KindName Nat) :=
  [⟨⟨"_NEWLINE"⟩, "\n  ".toList, 1⟩, ⟨⟨"NAME"⟩, "a".toList, 2⟩, ⟨⟨"_NEWLINE"⟩, "\n\t ".toList, 2⟩,
    ⟨⟨"NAME"⟩, "b".toList, 3⟩, ⟨⟨"_NEWLINE"⟩, "\n   ".toList, 3⟩, ⟨⟨"NAME"⟩, "c".toList, 4⟩]

theorem scan_of_ordersAlike_mixed :
    TabWidth.eight.OrdersAlike ⟨4, by decide⟩ ([] :: indentations mixed) ∧
      tokensOf (scan ⟨4, by decide⟩ mixed) = tokensOf (scan .eight mixed) ∧
      ∃ e f, failureOf? (scan .eight mixed) = some e ∧
        failureOf? (scan ⟨4, by decide⟩ mixed) = some f ∧
        f.place = e.place ∧ f.expected.length = e.expected.length := by
  have alike : TabWidth.eight.OrdersAlike ⟨4, by decide⟩ ([] :: indentations mixed) := by decide
  obtain ⟨tokens, ⟨silent, _⟩ | ⟨_, _, _, e, f, _, here, there, same⟩⟩ :=
    scan_of_ordersAlike (.inl alike)
  · exact absurd silent (by decide)
  · exact ⟨alike, tokens, e, f, here.2, there.2, same⟩

end Layout

end VyperFront
