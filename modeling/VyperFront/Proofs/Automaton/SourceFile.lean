import VyperFront.Proofs.Automaton.Action
import VyperFront.Proofs.Grammar.Program

/-! The vertices of source files. A source file goes on after some of its items as it begins,
but for where it counts the next item. -/

namespace VyperFront.Graph

variable {number target other : Nat} {s r : Symbol} {t : Terminal} {p q : Production}

theorem mem_edgesAt : (s, target) ∈ edgesAt vertices number ↔ Leads number s target := by
  unfold edgesAt Leads
  cases vertices[number]? <;> simp

private theorem facts :
    Leads 0 (.nonterminal .fileItems) afterItems ∧
    (∀ {number s target}, Leads number s target → number = 0 ∨
      s ≠ .nonterminal .fileItems ∧ s ≠ .nonterminal .sourceFile) ∧
    (edgesAt vertices 0).filter (!isPart ·.1) = (edgesAt vertices afterItems).filter (!isPart ·.1) ∧
    (∀ {number s target}, number = 0 ∨ number = afterItems → Leads number s target →
      isItem s = true ∨ s = .nonterminal .sourceFile → edgesAt vertices target = []) ∧
    (∀ {t target}, Leads afterItems (.terminal t) target → t = .newline ∨
      (Onset.ofSymbol Grammar.onsets (.nonterminal .statement)).first.contains t = true) ∧
    (∀ {t}, (Grammar.followers .fileItems).contains t = true → t = .endOfInput ∨
      ∃ target, Leads afterItems (.terminal t) target) ∧
    (∀ {t}, (Grammar.followers .sourceFile).contains t = true → t = .endOfInput) ∧
    (∀ {number s target r other}, s = .terminal .newline ∨ s = .terminal .dedent →
      Leads number s target → Leads target r other → r = .terminal .indent) := by
  have listed {n : Nonterminal} {t : Terminal} (follows : (Grammar.followers n).contains t = true) :
      t ∈ (Grammar.followers n).toList := List.mem_filter.mpr ⟨t.mem_all, follows⟩
  have checked := sourceFiles_checked
  simp only [sourceFilesChecked, Bool.and_eq_true, beq_iff_eq, List.contains_iff_mem,
    mem_edgesAt] at checked
  obtain ⟨⟨⟨⟨⟨⟨⟨first, single⟩, same⟩, ends⟩, begins⟩, followers⟩, final⟩, lines⟩ := checked
  refine ⟨first, ?_, same, ?_, ?_, ?_, ?_, ?_⟩
  · rintro number s target ⟨v, found, edge⟩
    have here := List.all_eq_true.mp single (v, number) (List.mem_zipIdx_iff_getElem?.mpr found)
    simp only [Bool.or_eq_true, beq_iff_eq, List.all_eq_true, Bool.and_eq_true, bne_iff_ne] at here
    exact here.imp_right fun all => all (s, target) edge
  · intro number s target start leads special
    have edge : (s, target) ∈ edgesAt vertices 0 ++ edgesAt vertices afterItems := by
      rw [List.mem_append, mem_edgesAt, mem_edgesAt]
      rcases start with rfl | rfl
      · exact .inl leads
      · exact .inr leads
    have here := List.all_eq_true.mp ends (s, target) edge
    have part : (isItem s || decide (s = .nonterminal .sourceFile)) = true := by simpa using special
    rwa [part, Bool.not_true, Bool.false_or, List.isEmpty_iff] at here
  · intro t target leads
    have here := List.all_eq_true.mp begins (.terminal t, target) (mem_edgesAt.mpr leads)
    simpa using here
  · intro t follows
    have here := List.all_eq_true.mp followers t (listed follows)
    rw [Bool.or_eq_true, decide_eq_true_eq, List.any_eq_true] at here
    refine here.imp_right ?_
    rintro ⟨⟨s, target⟩, edge, same⟩
    obtain rfl := beq_iff_eq.mp same
    exact ⟨target, mem_edgesAt.mp edge⟩
  · intro t follows
    exact of_decide_eq_true (List.all_eq_true.mp final t (listed follows))
  · rintro number s target r other ending ⟨v, found, edge⟩ leads
    have here := List.all_eq_true.mp (List.all_eq_true.mp lines v (List.mem_of_getElem? found))
      (s, target) edge
    have line : (s = .terminal .newline || s = .terminal .dedent : Bool) = true := by
      simpa using ending
    rw [line, Bool.not_true, Bool.false_or] at here
    exact beq_iff_eq.mp (List.all_eq_true.mp here (r, other) (mem_edgesAt.mpr leads))

theorem leads_fileItems_iff :
    Leads number (.nonterminal .fileItems) target ↔ number = 0 ∧ target = afterItems := by
  obtain ⟨first, single, _⟩ := facts
  constructor
  · intro leads
    obtain rfl := (single leads).resolve_right fun others => others.1 rfl
    exact ⟨rfl, leads.unique first⟩
  · rintro ⟨rfl, rfl⟩
    exact first

theorem not_leads_part (after : number ≠ 0) :
    ¬ Leads number (.nonterminal .fileItems) target ∧
      ¬ Leads number (.nonterminal .sourceFile) target := by
  obtain ⟨_, single, _⟩ := facts
  exact ⟨fun leads => ((single leads).resolve_left after).1 rfl,
    fun leads => ((single leads).resolve_left after).2 rfl⟩

/-- But for its own parts, a source file begins and goes on the same. -/
theorem leads_zero_iff (part : isPart s = false) :
    Leads 0 s target ↔ Leads afterItems s target := by
  obtain ⟨_, _, same, _⟩ := facts
  rw [← mem_edgesAt, ← mem_edgesAt]
  have members := congrArg ((s, target) ∈ ·) same
  simpa [List.mem_filter, part] using members

theorem not_leads_of_item (start : number = 0 ∨ number = afterItems) (leads : Leads number s target)
    (item : isItem s = true ∨ s = .nonterminal .sourceFile) : ¬ Leads target r other := by
  obtain ⟨_, _, _, ends, _⟩ := facts
  rw [← mem_edgesAt, ends start leads item]
  exact List.not_mem_nil

theorem follows_sourceFile (follows : Follows number .sourceFile t) : t = .endOfInput := by
  obtain ⟨_, _, _, _, _, _, final, _⟩ := facts
  exact final follows.followers

/-- After a line break or a dedent nothing is awaited but an indent. -/
theorem eq_indent_of_leads (ending : s = .terminal .newline ∨ s = .terminal .dedent)
    (leads : Leads number s target) (more : Leads target r other) : r = .terminal .indent := by
  obtain ⟨_, _, _, _, _, _, _, lines⟩ := facts
  exact lines ending leads more

/-- The productions of items begin at the first vertex, and only there. -/
theorem holds_fileItems_iff (member : q ∈ Nonterminal.fileItems.productions) :
    Holds number q 0 ↔ number = 0 := by
  have head := Nonterminal.head_of_mem_productions member
  constructor
  · intro holds
    rcases holds.begun with ⟨first, _⟩ | ⟨p, place, awaits, next⟩
    · exact first
    · obtain ⟨target, leads⟩ := awaits.exists_leads next
      rw [head] at leads
      exact (leads_fileItems_iff.mp leads).1
  · rintro rfl
    have program : Holds 0 Grammar.whole 0 :=
      holds_program (Grammar.mem_productions.mp Grammar.whole_mem_productions)
    have source : Holds 0 ⟨.sourceFile, .node .sourceFile, [.kept (.nonterminal .fileItems)]⟩ 0 :=
      @Holds.begin _ 0 _ _ _ program rfl (by decide)
    exact @Holds.begin _ 0 _ _ _ source rfl member

/-- The productions of items, by their last item. -/
theorem exists_itemProduction (item : isItem s = true) :
    (∃ p ∈ Nonterminal.fileItems.productions, p.body = [s]) ∧
      ∃ p ∈ Nonterminal.fileItems.productions, p.body = [.nonterminal .fileItems, s] := by
  rw [isItem, Bool.or_eq_true, decide_eq_true_eq, decide_eq_true_eq] at item
  rcases item with rfl | rfl
  · exact ⟨⟨⟨.fileItems, .splice, [.dropped (.terminal .newline)]⟩, by decide, rfl⟩,
      ⟨.fileItems, .splice, [.kept (.nonterminal .fileItems), .dropped (.terminal .newline)]⟩,
      by decide, rfl⟩
  · exact ⟨⟨⟨.fileItems, .splice, [.kept (.nonterminal .statement)]⟩, by decide, rfl⟩,
      ⟨.fileItems, .splice, [.kept (.nonterminal .fileItems), .kept (.nonterminal .statement)]⟩,
      by decide, rfl⟩

theorem exists_leads_item (start : number = 0 ∨ number = afterItems) (item : isItem s = true) :
    ∃ target, Leads number s target := by
  obtain ⟨⟨p, first, single⟩, q, more, pair⟩ := exists_itemProduction item
  rcases start with rfl | rfl
  · exact ((holds_fileItems_iff first).mpr rfl).exists_leads (by rw [single]; rfl)
  · have begins := (holds_fileItems_iff more).mpr rfl
    have leads : Leads 0 (.nonterminal .fileItems) afterItems :=
      leads_fileItems_iff.mpr ⟨rfl, rfl⟩
    exact (leads.holds begins (by rw [pair]; rfl)).exists_leads (by rw [pair]; rfl)

theorem follows_of_leads (leads : Leads afterItems (.terminal t) target) :
    Follows 0 .fileItems t := by
  have stands {s : Symbol} (item : isItem s = true) :
      ∃ p, Stands 0 p 0 .fileItems [s] := by
    obtain ⟨-, p, member, body⟩ := exists_itemProduction item
    exact ⟨p, (holds_fileItems_iff member).mpr rfl, [], body, .nil 0⟩
  obtain ⟨_, _, _, _, begins, _⟩ := facts
  rcases begins leads with rfl | first
  · obtain ⟨p, stands⟩ := stands (s := .terminal .newline) rfl
    exact .within stands (by decide)
  · obtain ⟨p, stands⟩ := stands (s := .nonterminal .statement) rfl
    refine .within stands ?_
    rw [Onset.ofSymbols, Onset.followedBy]
    split
    · rw [TerminalSet.contains_union, first, Bool.true_or]
    · exact first

/-- What can follow items anywhere follows them, or it is the end of the input. -/
theorem leads_of_followers (follower : (Grammar.followers .fileItems).contains t = true)
    (inside : t ≠ .endOfInput) : ∃ target, Leads afterItems (.terminal t) target := by
  obtain ⟨_, _, _, _, _, followers, _⟩ := facts
  exact (followers follower).resolve_left inside

/-- The terminals that go on with a statement where an item could begin, too. -/
def continuations : TerminalSet := .ofList [.kwElif, .kwElse, .indent, .dedent]

/-- Whether what follows the head of the production at the end of a line begins an item or
goes on with a statement. -/
private def endsItem (p : Production) : Bool :=
  !(p.body.getLast? = some (.terminal .newline) || p.body.getLast? = some (.terminal .dedent)) ||
    (Grammar.followers p.head).within (Grammar.followers .fileItems ∪ continuations)

private theorem endsItem_checked :
    Grammar.productions.all endsItem = true ∧
      (Grammar.followers .fileItems).contains .name = true := by
  decide +kernel

theorem follows_name : Follows 0 .fileItems .name := by
  obtain ⟨target, leads⟩ := leads_of_followers endsItem_checked.2 (by decide)
  exact follows_of_leads leads

/-- After a line break or a dedent there is a further item, or the statement goes on. -/
theorem follows_of_expected (ending : s = .terminal .newline ∨ s = .terminal .dedent)
    (leads : Leads number s target) (inside : t ≠ .endOfInput)
    (expected : (automaton.state target).expected.contains t = true) :
    Follows 0 .fileItems t ∨ continuations.contains t = true := by
  rcases Automaton.contains_expected.mp expected with ⟨onward, more⟩ | ⟨p, reduces⟩
  · have indent := Symbol.terminal.inj (eq_indent_of_leads ending leads more)
    exact .inr (by rw [indent]; decide)
  · have holds := reduces.holds
    obtain ⟨_, _, _, follows⟩ := reduces
    have member := Grammar.mem_productions.mpr holds.mem_productions
    cases last : p.body.getLast? with
    | none =>
      have empty := List.getLast?_eq_none_iff.mp last
      rw [Grammar.head_eq_sourceFile_of_body_eq_nil member empty] at follows
      exact absurd (follows_sourceFile follows) inside
    | some symbol =>
      have length : p.body.length ≠ 0 := by
        rintro none
        rw [List.eq_nil_of_length_eq_zero none] at last
        cases last
      obtain ⟨place, length⟩ := Nat.exists_eq_succ_of_ne_zero length
      rw [length] at holds
      have back := (leads.back holds).1
      rw [List.getLast?_eq_getElem?, length, Nat.succ_sub_one, back] at last
      have here := List.all_eq_true.mp endsItem_checked.1 p member
      rw [endsItem, List.getLast?_eq_getElem?, length, Nat.succ_sub_one, back] at here
      have line : (decide (some s = some (.terminal .newline)) ||
          decide (some s = some (.terminal .dedent))) = true := by simpa using ending
      rw [line, Bool.not_true, Bool.false_or] at here
      have contained := TerminalSet.contains_of_within here follows.followers
      rw [TerminalSet.contains_union, Bool.or_eq_true] at contained
      refine contained.imp_left fun follower => ?_
      obtain ⟨onward, leads⟩ := leads_of_followers follower inside
      exact follows_of_leads leads

end VyperFront.Graph
