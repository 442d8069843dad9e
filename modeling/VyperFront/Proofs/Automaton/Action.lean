import VyperFront.Proofs.Automaton.Lookahead

/-! What the states of the automaton do, in terms of the graph: a terminal is shifted
where it leads on, and a production is reduced where it ends before what can follow
it. No state has a choice between the two, or between productions. -/

namespace VyperFront

open VyperFront.Graph

variable {number target : Nat} {p q : Production} {n : Nonterminal} {s : Symbol} {t : Terminal}

/-- The production can end at the vertex, and the terminal can follow it there. -/
def Graph.Reduces (number : Nat) (p : Production) (t : Terminal) : Prop :=
  ∃ origin, Holds origin p 0 ∧ Path origin p.body number ∧ Follows origin p.head t

theorem Graph.Reduces.holds (reduces : Reduces number p t) : Holds number p p.body.length := by
  obtain ⟨origin, begins, path, _⟩ := reduces
  exact path.complete begins

theorem Graph.Reduces.not_leads (reduces : Reduces number p t) :
    ¬ Leads number (.terminal t) target := by
  obtain ⟨origin, begins, path, follows⟩ := reduces
  exact follows.not_leads begins path

namespace State

/-- The production is listed with the terminal among those that can follow. -/
def Permits (reductions : List (Production × TerminalSet)) (p : Production) (t : Terminal) :
    Prop :=
  ∃ follow, (p, follow) ∈ reductions ∧ follow.contains t = true

theorem permits_addReduction {follow : TerminalSet} {reductions : List (Production × TerminalSet)} :
    Permits (addReduction p follow reductions) q t ↔
      Permits reductions q t ∨ q = p ∧ follow.contains t = true := by
  induction reductions with
  | nil => simp [addReduction, Permits]
  | cons first rest ih =>
    obtain ⟨r, others⟩ := first
    have split (set : TerminalSet) (more : List (Production × TerminalSet)) :
        Permits ((r, set) :: more) q t ↔ q = r ∧ set.contains t = true ∨ Permits more q t := by
      simp only [Permits, List.mem_cons, Prod.mk.injEq, or_and_right, exists_or]
      refine or_congr_left ⟨?_, ?_⟩
      · rintro ⟨_, ⟨same, rfl⟩, present⟩
        exact ⟨same, present⟩
      · rintro ⟨same, present⟩
        exact ⟨_, ⟨same, rfl⟩, present⟩
    rw [addReduction]
    split
    · next same =>
      subst same
      rw [split, split, TerminalSet.contains_union, Bool.or_eq_true]
      tauto
    · rw [split, split, ih]
      tauto

theorem contains_foldl_union {reductions : List (Production × TerminalSet)} {s : TerminalSet} :
    (reductions.foldl (· ∪ ·.2) s).contains t = true ↔
      s.contains t = true ∨ ∃ p, Permits reductions p t := by
  induction reductions generalizing s with
  | nil => simp [Permits]
  | cons first rest ih =>
    rw [List.foldl_cons, ih, TerminalSet.contains_union, Bool.or_eq_true, or_assoc]
    refine or_congr_right ⟨?_, ?_⟩
    · rintro (here | ⟨p, follow, member, present⟩)
      · exact ⟨first.1, first.2, List.mem_cons_self, here⟩
      · exact ⟨p, follow, List.mem_cons_of_mem _ member, present⟩
    · rintro ⟨p, follow, member, present⟩
      rcases List.mem_cons.mp member with rfl | later
      · exact .inl present
      · exact .inr ⟨p, follow, later, present⟩

theorem action_eq_shift_iff {state : State} :
    state.action t = .shift target ↔
      state.edges.get? (Symbol.terminal t).code = some target := by
  rw [action]
  cases state.edges.get? (Symbol.terminal t).code with
  | some other => simp
  | none =>
    simp only [reduceCtorEq, iff_false]
    split <;> exact Action.noConfusion

theorem action_eq_reduce_iff {state : State}
    (single : ∀ {p q}, Permits state.reductions p t → Permits state.reductions q t → p = q)
    (apart : ∀ {p target}, Permits state.reductions p t →
      state.edges.get? (Symbol.terminal t).code ≠ some target) :
    state.action t = .reduce p ↔ Permits state.reductions p t := by
  rw [action]
  cases edge : state.edges.get? (Symbol.terminal t).code with
  | some target => exact ⟨nofun, fun permits => absurd edge (apart permits)⟩
  | none =>
    dsimp only
    split
    · next q follow found =>
      have permits : Permits state.reductions q t :=
        ⟨follow, List.mem_of_find?_eq_some found, by simpa using List.find?_some found⟩
      rw [Action.reduce.injEq]
      constructor
      · rintro rfl
        exact permits
      · exact single permits
    · next none =>
      refine ⟨nofun, ?_⟩
      rintro ⟨follow, member, present⟩
      exact absurd present (List.find?_eq_none.mp none _ member)

end State

namespace Automaton

open State

private theorem permits_reductions_from {follow : Table TerminalSet}
    {ends : List (Nat × Production × Nat)} (table : Table (List (Production × TerminalSet))) :
    Permits (((ends.foldl (fun reductions (vertex, p, origin) =>
      reductions.update [] (addReduction p (Lookahead.follow follow origin)) vertex)
        table).get? number).getD []) p t ↔
      Permits ((table.get? number).getD []) p t ∨
        ∃ position, (number, p, position) ∈ ends ∧
          (Lookahead.follow follow position).contains t = true := by
  induction ends generalizing table with
  | nil => simp
  | cons first rest ih =>
    obtain ⟨vertex, q, origin⟩ := first
    rw [List.foldl_cons, ih, Table.get?_update]
    by_cases here : number = vertex
    · subst here
      rw [if_pos rfl, Option.getD_some, permits_addReduction, or_assoc]
      refine or_congr_right ⟨?_, ?_⟩
      · rintro (⟨rfl, present⟩ | ⟨position, member, present⟩)
        · exact ⟨origin, List.mem_cons_self, present⟩
        · exact ⟨position, List.mem_cons_of_mem _ member, present⟩
      · rintro ⟨position, member, present⟩
        rcases List.mem_cons.mp member with same | later
        · cases same
          exact .inl ⟨rfl, present⟩
        · exact .inr ⟨position, later, present⟩
    · rw [if_neg here]
      simp [here]

/-- A production is listed at the vertices where it ends, with what can follow it. -/
theorem permits_reductions {follow : Table TerminalSet} {ends : List (Nat × Production × Nat)} :
    Permits (((reductions follow ends).get? number).getD []) p t ↔
      ∃ position, (number, p, position) ∈ ends ∧
        (Lookahead.follow follow position).contains t = true := by
  rw [reductions, permits_reductions_from]
  simp [Permits]

private theorem permits_iff_reduces :
    Permits (((reductions (equations vertices).solution (equations vertices).ends).get?
      number).getD []) p t ↔ Reduces number p t := by
  rw [permits_reductions]
  constructor
  · rintro ⟨position, member, present⟩
    obtain ⟨origin, rfl, begins, path⟩ := mem_ends_equations.mp member
    exact ⟨origin, begins, path, contains_lookahead.mp present⟩
  · rintro ⟨origin, begins, path, follows⟩
    exact ⟨_, mem_ends_equations.mpr ⟨origin, rfl, begins, path⟩, contains_lookahead.mpr follows⟩

private theorem state_build (vertices : List Vertex) (number : Nat) :
    (build vertices).state number = match vertices[number]? with
      | some v => stateOf v (((reductions (equations vertices).solution
          (equations vertices).ends).get? number).getD [])
      | none => default := by
  rw [build, state, Table.get?_ofList, List.getElem?_map, List.getElem?_zipIdx]
  cases vertices[number]? <;> simp

/-- The states of the automaton are those of the vertices. -/
private theorem exists_state (number : Nat) :
    (∃ v reductions, vertices[number]? = some v ∧ automaton.state number = stateOf v reductions ∧
      ∀ {p t}, Permits reductions p t ↔ Reduces number p t) ∨
    vertices[number]? = none ∧ automaton.state number = default := by
  unfold automaton
  rw [state_build]
  cases found : vertices[number]? with
  | none => exact .inr ⟨rfl, rfl⟩
  | some v => exact .inl ⟨v, _, rfl, rfl, permits_iff_reduces⟩

private theorem get?_edges_state :
    (automaton.state number).edges.get? s.code = some target ↔ Leads number s target := by
  rcases exists_state number with ⟨v, reductions, found, same, _⟩ | ⟨none, same⟩
  · rw [same, stateOf, get?_targets (nodup_edges found)]
    constructor
    · exact fun edge => ⟨v, found, edge⟩
    · rintro ⟨w, also, edge⟩
      rw [found] at also
      cases also
      exact edge
  · rw [same]
    refine ⟨nofun, ?_⟩
    rintro ⟨v, found, _⟩
    rw [none] at found
    cases found

private theorem permits_state :
    Permits (automaton.state number).reductions p t ↔ Reduces number p t := by
  rcases exists_state number with ⟨v, reductions, found, same, permits⟩ | ⟨none, same⟩
  · rw [same, stateOf, permits]
  · rw [same]
    constructor
    · rintro ⟨_, member, _⟩
      cases member
    · intro reduces
      obtain ⟨v, found, _⟩ := reduces.holds
      rw [none] at found
      cases found

theorem contains_expected :
    (automaton.state number).expected.contains t = true ↔
      (∃ target, Leads number (.terminal t) target) ∨ ∃ p, Reduces number p t := by
  rcases exists_state number with ⟨v, reductions, found, same, permits⟩ | ⟨none, same⟩
  · rw [same, stateOf, contains_foldl_union, contains_shifts]
    refine or_congr (exists_congr fun target => ?_) (exists_congr fun p => permits)
    constructor
    · exact fun edge => ⟨v, found, edge⟩
    · rintro ⟨w, also, edge⟩
      rw [found] at also
      cases also
      exact edge
  · have empty : (default : State).expected.contains t = false := TerminalSet.contains_empty t
    rw [same, empty]
    refine ⟨nofun, ?_⟩
    rintro (⟨target, v, found, _⟩ | ⟨p, reduces⟩)
    · rw [none] at found
      cases found
    · obtain ⟨v, found, _⟩ := reduces.holds
      rw [none] at found
      cases found

/-- A completed phrase leads where the graph says. -/
theorem goto?_eq_some_iff :
    (automaton.state number).goto? n = some target ↔ Leads number (.nonterminal n) target := by
  rw [← get?_edges_state, State.goto?]

theorem action_eq_shift_iff :
    (automaton.state number).action t = .shift target ↔ Leads number (.terminal t) target := by
  rw [← get?_edges_state, State.action_eq_shift_iff]

theorem action_eq_reduce_iff :
    (automaton.state number).action t = .reduce p ↔ Reduces number p t := by
  rw [← permits_state, State.action_eq_reduce_iff]
  · intro p q left right
    exact (permits_state.mp left).holds.complete_unique (permits_state.mp right).holds
  · intro p target permits edge
    exact (permits_state.mp permits).not_leads (get?_edges_state.mp edge)

end Automaton

end VyperFront
