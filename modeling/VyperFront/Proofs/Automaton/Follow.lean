import VyperFront.Proofs.Automaton.Graph

/-! What can follow a phrase that begins at a vertex, and why no vertex has a choice:
a terminal that leads on from a complete production cannot follow it. -/

namespace VyperFront.Graph

/-- The symbols lead from one vertex to another, one after the other. -/
inductive Path : Nat → List Symbol → Nat → Prop
  | nil (number : Nat) : Path number [] number
  | cons {number middle target : Nat} {s : Symbol} {rest : List Symbol} :
    Leads number s middle → Path middle rest target → Path number (s :: rest) target

/-- In a production that begins at the origin, the phrase stands at the vertex, and
the symbols come after it. -/
def Stands (origin : Nat) (p : Production) (number : Nat) (n : Nonterminal)
    (after : List Symbol) : Prop :=
  Holds origin p 0 ∧ ∃ before, p.body = before ++ .nonterminal n :: after ∧
    Path origin before number

/-- The terminal can follow the phrase where it begins at the vertex. -/
inductive Follows : Nat → Nonterminal → Terminal → Prop
  | program : Follows 0 .program .endOfInput
  | within {origin number : Nat} {p : Production} {n : Nonterminal} {after : List Symbol}
    {t : Terminal} : Stands origin p number n after →
    (Onset.ofSymbols Grammar.onsets after).first.contains t = true → Follows number n t
  | ending {origin number : Nat} {p : Production} {n : Nonterminal} {after : List Symbol}
    {t : Terminal} : Stands origin p number n after →
    (Onset.ofSymbols Grammar.onsets after).empty = true → Follows origin p.head t →
    Follows number n t

variable {number origin middle target place : Nat} {p q : Production} {n : Nonterminal}
  {s : Symbol} {before after part : List Symbol} {t : Terminal}

namespace Path

theorem append (first : Path number before middle) (second : Path middle after target) :
    Path number (before ++ after) target := by
  induction first with
  | nil => exact second
  | cons leads _ ih => exact .cons leads (ih second)

theorem snoc (path : Path number before middle) (leads : Leads middle s target) :
    Path number (before ++ [s]) target :=
  path.append (.cons leads (.nil target))

theorem unique {other : Nat} (path : Path number part target) (also : Path number part other) :
    target = other := by
  induction path with
  | nil =>
    cases also
    rfl
  | cons leads _ ih =>
    cases also with
    | cons others rest =>
      obtain rfl := leads.unique others
      exact ih rest

/-- A production in progress is still so after its next symbols. -/
theorem holds (path : Path number part target) (holds : Holds number p place)
    (next : p.body.drop place = part ++ after) : Holds target p (place + part.length) := by
  induction path generalizing place with
  | nil => exact holds
  | @cons number middle target s rest leads _ ih =>
    have here : p.body[place]? = some s := by
      rw [← List.head?_drop, next]
      rfl
    have later : p.body.drop (place + 1) = rest ++ after := by
      rw [← List.drop_drop, next]
      rfl
    have moved := ih (leads.holds holds here) later
    rwa [List.length_cons, Nat.add_comm rest.length, ← Nat.add_assoc]

theorem complete (path : Path number p.body target) (begins : Holds number p 0) :
    Holds target p p.body.length := by
  have all : p.body.drop 0 = p.body ++ [] := by simp
  simpa using path.holds begins all

end Path

theorem Stands.holds (stands : Stands origin p number n after) :
    ∃ place, Holds number p place ∧ p.body.drop place = .nonterminal n :: after ∧
      (place = 0 → number = origin) := by
  obtain ⟨begins, before, body, path⟩ := stands
  refine ⟨before.length, ?_, by simp [body], ?_⟩
  · simpa using path.holds begins body
  · intro empty
    obtain rfl := List.eq_nil_of_length_eq_zero empty
    cases path
    rfl

private theorem mem_steps {onsets : Table Onset} :
    ⟨s, Onset.ofSymbols onsets after⟩ ∈ Lookahead.steps onsets (before ++ s :: after) := by
  induction before with
  | nil => exact List.mem_cons_self
  | cons first rest ih => exact List.mem_cons_of_mem _ ih

theorem Stands.mem_occurrences (stands : Stands origin p number n after) :
    (p.head, n, Onset.ofSymbols Grammar.onsets after) ∈ Grammar.occurrences := by
  obtain ⟨begins, before, body, _⟩ := stands
  refine List.mem_flatMap.mpr ⟨p, Grammar.mem_productions.mpr begins.mem_productions, ?_⟩
  refine List.mem_filterMap.mpr ⟨⟨.nonterminal n, Onset.ofSymbols Grammar.onsets after⟩, ?_, rfl⟩
  rw [body]
  exact mem_steps

private theorem followers_settled : Grammar.followersSettled = true := by
  have checked := certified
  simp only [certificate, Bool.and_eq_true] at checked
  exact checked.1.2

private theorem decided_vertex {v : Vertex} (found : vertices[number]? = some v) :
    decided number v = true := by
  have checked := certified
  simp only [certificate, Bool.and_eq_true, List.all_eq_true] at checked
  exact checked.2 (v, number) (List.mk_mem_zipIdx_iff_getElem?.mpr found)

/-- What can follow a phrase at a vertex can follow it in a program. -/
theorem Follows.followers (follows : Follows number n t) :
    (Grammar.followers n).contains t = true := by
  have settled := followers_settled
  simp only [Grammar.followersSettled, Bool.and_eq_true, List.all_eq_true, Bool.or_eq_true,
    Bool.not_eq_true'] at settled
  induction follows with
  | program => exact settled.1
  | within stands first =>
    exact TerminalSet.contains_of_within (settled.2 _ stands.mem_occurrences).1 first
  | ending stands empty _ ih =>
    rcases (settled.2 _ stands.mem_occurrences).2 with full | within
    · exact absurd empty (by rw [full]; decide)
    · exact TerminalSet.contains_of_within within ih

theorem mem_toItems {items : ItemSet} (holds : ItemSet.Holds items p place) :
    (p, place) ∈ items.toItems := by
  obtain ⟨_, ⟨first, member, inside, rfl⟩, held⟩ := holds
  refine List.mem_flatMap.mpr ⟨(first, p), member, ?_⟩
  exact List.mem_filterMap.mpr ⟨place, List.mem_range.mpr (by omega), if_pos held⟩

theorem not_follows_of_precludes {v : Vertex} (found : vertices[number]? = some v) {depth : Nat}
    (precluded : precludes v.items.toItems t depth n = true) : ¬ Follows number n t := by
  induction depth generalizing n with
  | zero => cases precluded
  | succ depth ih =>
    simp only [precludes, Bool.and_eq_true, bne_iff_ne, List.all_eq_true] at precluded
    obtain ⟨other, precluded⟩ := precluded
    have standing {origin p after} (stands : Stands origin p number n after) :
        (Onset.ofSymbols Grammar.onsets after).first.contains t = false ∧
          ((Onset.ofSymbols Grammar.onsets after).empty = false ∨ ¬ Follows origin p.head t) := by
      obtain ⟨place, ⟨w, also, items⟩, next, same⟩ := stands.holds
      rw [found] at also
      cases also
      have item := precluded _ (mem_toItems items)
      simp only [next, bne_self_eq_false, Bool.false_or, Bool.and_eq_true, Bool.or_eq_true,
        Bool.not_eq_true'] at item
      refine ⟨item.1, item.2.imp_right fun after => ?_⟩
      split at after
      · next first =>
        rw [← same first]
        exact ih after
      · intro follows
        rw [follows.followers] at after
        cases after
    intro follows
    cases follows with
    | program => exact other rfl
    | within stands first =>
      rw [(standing stands).1] at first
      cases first
    | ending stands empty outer =>
      rcases (standing stands).2 with full | never
      · rw [full] at empty
        cases empty
      · exact never outer

theorem contains_shifts {edges : List (Symbol × Nat)} :
    (Automaton.shifts edges).contains t = true ↔ ∃ target, (.terminal t, target) ∈ edges := by
  induction edges with
  | nil => simp [Automaton.shifts]
  | cons edge rest ih =>
    obtain ⟨s, target⟩ := edge
    cases s with
    | terminal u =>
      have more : Automaton.shifts ((.terminal u, target) :: rest) =
        .singleton u ∪ Automaton.shifts rest := rfl
      rw [more]
      simp only [TerminalSet.contains_union, TerminalSet.contains_singleton, Bool.or_eq_true,
        decide_eq_true_eq, ih, List.mem_cons, Prod.mk.injEq, Symbol.terminal.injEq]
      constructor
      · rintro (rfl | ⟨other, present⟩)
        · exact ⟨target, .inl ⟨rfl, rfl⟩⟩
        · exact ⟨other, .inr present⟩
      · rintro ⟨other, ⟨rfl, rfl⟩ | present⟩
        · exact .inl rfl
        · exact .inr ⟨other, present⟩
    | nonterminal m =>
      have more : Automaton.shifts ((.nonterminal m, target) :: rest) =
        Automaton.shifts rest := rfl
      simp [more, ih]

private theorem walk_of_path (path : Path number part target) :
    walk vertices number part = some target := by
  induction path with
  | nil => rfl
  | @cons number middle target s rest leads _ ih =>
    obtain ⟨v, found, edge⟩ := leads
    have present : (v.edges.find? (·.1 == s)).isSome :=
      List.find?_isSome.mpr ⟨_, edge, beq_self_eq_true s⟩
    obtain ⟨⟨r, other⟩, first⟩ := Option.isSome_iff_exists.mp present
    obtain rfl : r = s := by simpa using List.find?_some first
    obtain rfl : middle = other :=
      Leads.unique ⟨v, found, edge⟩ ⟨v, found, List.mem_of_find?_eq_some first⟩
    rw [walk, found, Option.bind_some, first]
    exact ih

private theorem mem_complete_meeting {items : ItemSet}
    (holds : ItemSet.Holds items p p.body.length) :
    ∃ met, (met, p) ∈ ItemSet.complete.meeting items := by
  obtain ⟨_, ⟨first, member, _, rfl⟩, held⟩ := holds
  unfold ItemSet.complete
  refine ⟨_, ItemIndex.mem_meeting_ofList.mpr
    ⟨_, List.mem_map.mpr ⟨(first, p), member, rfl⟩, ?_, rfl⟩⟩
  intro none
  have bit := congrArg (Nat.testBit · (first + p.body.length)) none
  simp [Nat.testBit_and, held] at bit

/-- At most one production can end at a vertex. -/
theorem Holds.complete_unique (holds : Holds number p p.body.length)
    (also : Holds number q q.body.length) : p = q := by
  obtain ⟨v, found, items⟩ := holds
  obtain ⟨w, same, others⟩ := also
  rw [found] at same
  cases same
  have decided := decided_vertex found
  obtain ⟨_, left⟩ := mem_complete_meeting items
  obtain ⟨_, right⟩ := mem_complete_meeting others
  unfold Graph.decided at decided
  split at decided
  · next none =>
    rw [none] at left
    cases left
  · next one =>
    rw [one, List.mem_singleton] at left right
    exact congrArg Prod.snd (left.trans right.symm)
  · cases decided

/-- A terminal that can follow a production does not lead on from where it ends. -/
theorem Follows.not_leads (follows : Follows origin p.head t) (begins : Holds origin p 0)
    (path : Path origin p.body number) : ¬ Leads number (.terminal t) target := by
  rintro ⟨v, found, edge⟩
  have shifts := contains_shifts.mpr ⟨target, edge⟩
  obtain ⟨w, also, items⟩ := path.complete begins
  rw [found] at also
  cases also
  obtain ⟨_, listed⟩ := mem_complete_meeting items
  have decided := decided_vertex found
  unfold Graph.decided at decided
  split at decided
  · next none =>
    rw [none] at listed
    cases listed
  · next one =>
    rw [one, List.mem_singleton] at listed
    cases listed
    rcases Bool.or_eq_true_iff.mp decided with apart | distinguished
    · have never := TerminalSet.not_contains_of_apart apart shifts
      rw [follows.followers] at never
      cases never
    · obtain ⟨first, begun, _⟩ := begins
      have checked := List.all_eq_true.mp distinguished _
        (List.mk_mem_zipIdx_iff_getElem?.mpr begun)
      simp only [walk_of_path path, bne_self_eq_false, Bool.false_or, List.all_eq_true,
        Bool.or_eq_true, Bool.not_eq_true'] at checked
      rcases checked t (List.mem_filter.mpr ⟨t.mem_all, shifts⟩) with never | precluded
      · rw [follows.followers] at never
        cases never
      · exact not_follows_of_precludes begun precluded follows
  · cases decided

end VyperFront.Graph
