import VyperFront.Proofs.Automaton.Certificate
import VyperFront.Proofs.Automaton.Exploration

/-! The graph as a whole: which productions are in progress at its vertices, and
how edges move them. Each edge moves exactly the productions that wait for its
symbol; at each vertex the productions of the awaited phrases begin, and no others. -/

namespace VyperFront.Graph

theorem few_vertices : vertices.length < 500 := by
  have checked := certified
  simp only [certificate, Bool.and_eq_true, Nat.blt_eq] at checked
  exact checked.1.1.1.1

theorem settled_brought : ItemSet.Settled := by
  have checked := certified
  simp only [certificate, Bool.and_eq_true, beq_iff_eq] at checked
  have settled := checked.1.1.1.2
  rwa [phrases] at settled

/-- The production is in progress at the place in its body. -/
def Holds (number : Nat) (p : Production) (place : Nat) : Prop :=
  ∃ v, vertices[number]? = some v ∧ ItemSet.Holds v.items p place

/-- The symbol leads from one vertex to another. -/
def Leads (number : Nat) (s : Symbol) (target : Nat) : Prop :=
  ∃ v, vertices[number]? = some v ∧ (s, target) ∈ v.edges

variable {number target place : Nat} {p q : Production} {s : Symbol} {n : Nonterminal}

theorem Holds.mem_productions (holds : Holds number p place) : p ∈ p.head.productions := by
  obtain ⟨_, _, items⟩ := holds
  exact Grammar.mem_productions.mp items.mem_productions

private theorem mem_symbols_meeting {items met : ItemSet} :
    (met, s) ∈ symbols.meeting items ↔
      met = items &&& ItemSet.waitingFor s ∧ ItemSet.Awaits items s := by
  have listed := s.mem_all
  rw [ItemSet.awaits_iff]
  unfold symbols
  generalize Symbol.all = keys at listed ⊢
  rw [ItemIndex.mem_meeting_keyed]
  constructor
  · rintro ⟨_, shared, same⟩
    exact ⟨same, shared⟩
  · rintro ⟨same, shared⟩
    exact ⟨listed, shared, same⟩

@[simp] private theorem testBit_advance (items : ItemSet) (i : Nat) :
    (ItemSet.advance items).testBit (i + 1) = items.testBit i := by
  simp [ItemSet.advance, Nat.testBit_shiftLeft]

private theorem testBit_advance_zero (items : ItemSet) :
    (ItemSet.advance items).testBit 0 = false := by
  simp [ItemSet.advance]

/-- What an edge connects: a vertex that awaits its symbol, and the vertex with the
items past it. -/
private theorem Leads.vertices (leads : Leads number s target) :
    ∃ v w, Graph.vertices[number]? = some v ∧ Graph.vertices[target]? = some w ∧
      ItemSet.Awaits v.items s ∧
      w.items = ItemSet.predict phrases (ItemSet.advance (v.items &&& ItemSet.waitingFor s)) := by
  obtain ⟨cores, known⟩ := exists_cores few_vertices
  obtain ⟨v, found, edge⟩ := leads
  obtain ⟨_, _, _, connects⟩ := known.expand.2 number v found
  obtain ⟨met, listed, moved⟩ := connects.exists_awaited edge
  obtain ⟨rfl, awaits⟩ := mem_symbols_meeting.mp listed
  have inside : target < Graph.vertices.length := by
    have := known.expand.1
    have := (List.getElem?_eq_some_iff.mp moved).1
    omega
  have reached := List.getElem?_eq_getElem inside
  obtain ⟨core, numbered, expands⟩ := known.expand.2 target _ reached
  rw [Nat.zero_add, moved] at numbered
  cases numbered
  exact ⟨v, _, found, reached, awaits, expands.items⟩

private theorem exists_leads {v : Vertex} (found : vertices[number]? = some v)
    (awaits : ItemSet.Awaits v.items s) : ∃ target, Leads number s target := by
  obtain ⟨cores, known⟩ := exists_cores few_vertices
  obtain ⟨_, _, _, connects⟩ := known.expand.2 number v found
  obtain ⟨target, edge⟩ := connects.exists_edge (mem_symbols_meeting.mpr ⟨rfl, awaits⟩)
  exact ⟨target, v, found, edge⟩

private theorem nodup_symbols : Symbol.all.Nodup := by
  have terminals : Terminal.all.Nodup :=
    List.Nodup.of_map _ (Terminal.map_ctorIdx_all ▸ List.nodup_range)
  have nonterminals : Nonterminal.all.Nodup :=
    List.Nodup.of_map _ (Nonterminal.map_ctorIdx_all ▸ List.nodup_range)
  refine List.nodup_append.mpr ⟨terminals.map fun _ _ => Symbol.terminal.inj,
    nonterminals.map fun _ _ => Symbol.nonterminal.inj, ?_⟩
  intro r inLeft s inRight same
  obtain ⟨_, _, rfl⟩ := List.mem_map.mp inLeft
  obtain ⟨_, _, rfl⟩ := List.mem_map.mp inRight
  cases same

theorem nodup_edges {v : Vertex} (found : vertices[number]? = some v) :
    (v.edges.map Prod.fst).Nodup := by
  obtain ⟨cores, known⟩ := exists_cores few_vertices
  obtain ⟨_, _, _, connects⟩ := known.expand.2 number v found
  have nodup := nodup_symbols
  rw [connects.map_fst]
  unfold symbols
  generalize Symbol.all = keys at nodup ⊢
  exact ItemIndex.nodup_meeting_keyed nodup _ _

theorem Holds.exists_leads (holds : Holds number p place) (next : p.body[place]? = some s) :
    ∃ target, Leads number s target := by
  obtain ⟨v, found, items⟩ := holds
  exact Graph.exists_leads found ⟨p, place, items, next⟩

theorem Leads.holds (leads : Leads number s target) (holds : Holds number p place)
    (next : p.body[place]? = some s) : Holds target p (place + 1) := by
  obtain ⟨v, w, found, reached, _, moved⟩ := leads.vertices
  obtain ⟨other, also, i, ⟨first, member, _, rfl⟩, held⟩ := holds
  rw [found] at also
  cases also
  have inside := (List.getElem?_eq_some_iff.mp next).1
  have waits : (ItemSet.waitingFor s).testBit (first + place) = true :=
    ItemSet.testBit_waitingFor.mpr ⟨p, place, ⟨first, member, by omega, rfl⟩, next⟩
  refine ⟨w, reached, first + (place + 1), ⟨first, member, inside, rfl⟩, ?_⟩
  rw [moved]
  apply ItemSet.testBit_predict_of_core
  rw [← Nat.add_assoc, testBit_advance, Nat.testBit_and, held, waits]
  rfl

theorem Leads.back (leads : Leads number s target) (holds : Holds target p (place + 1)) :
    p.body[place]? = some s ∧ Holds number p place := by
  obtain ⟨v, w, found, reached, _, moved⟩ := leads.vertices
  obtain ⟨other, also, i, numbers, held⟩ := holds
  rw [reached] at also
  cases also
  rw [moved] at held
  rcases ItemSet.predict_justified held with before | ⟨q, _, begins, _⟩
  · obtain ⟨first, member, inside, rfl⟩ := numbers
    rw [← Nat.add_assoc, testBit_advance, Nat.testBit_and, Bool.and_eq_true] at before
    have here : ItemSet.Numbers (first + place) p place := ⟨first, member, by omega, rfl⟩
    obtain ⟨r, position, others, next⟩ := ItemSet.testBit_waitingFor.mp before.2
    obtain ⟨rfl, rfl⟩ := here.unique others
    exact ⟨next, v, found, first + place, here, before.1⟩
  · exact absurd (numbers.unique begins).2 (Nat.succ_ne_zero place)

theorem Leads.awaited (leads : Leads number s target) :
    ∃ p place, Holds number p place ∧ p.body[place]? = some s := by
  obtain ⟨v, _, found, _, ⟨p, place, items, next⟩, _⟩ := leads.vertices
  exact ⟨p, place, ⟨v, found, items⟩, next⟩

theorem Leads.unique {other : Nat} (leads : Leads number s target)
    (also : Leads number s other) : target = other := by
  obtain ⟨v, found, edge⟩ := leads
  obtain ⟨w, same, another⟩ := also
  rw [found] at same
  cases same
  have nodup := nodup_edges found
  exact congrArg Prod.snd (List.inj_on_of_nodup_map nodup edge another rfl)

theorem Holds.begin (holds : Holds number p place)
    (next : p.body[place]? = some (.nonterminal n)) (member : q ∈ n.productions) :
    Holds number q 0 := by
  obtain ⟨cores, known⟩ := exists_cores few_vertices
  obtain ⟨v, found, items⟩ := holds
  obtain ⟨_, _, expanded, _⟩ := known.expand.2 number v found
  rw [expanded] at items
  refine ⟨v, found, ?_⟩
  rw [expanded]
  exact ItemSet.holds_of_awaits settled_brought ⟨p, place, items, next⟩ member

theorem holds_program (member : q ∈ Nonterminal.program.productions) : Holds 0 q 0 := by
  obtain ⟨cores, known⟩ := exists_cores few_vertices
  have inside : 0 < vertices.length := by
    have := known.expand.1
    have := (List.getElem?_eq_some_iff.mp known.first).1
    omega
  have found := List.getElem?_eq_getElem inside
  obtain ⟨core, numbered, expands⟩ := known.expand.2 0 _ found
  rw [known.first] at numbered
  cases numbered
  obtain ⟨number, present⟩ :=
    ItemSet.exists_mem_numbered.mpr (Grammar.mem_productions.mpr
      (Nonterminal.head_of_mem_productions member ▸ member))
  have numbers : ItemSet.Numbers number q 0 := ⟨number, present, Nat.zero_le _, rfl⟩
  refine ⟨_, found, number, numbers, ?_⟩
  rw [expands.items]
  apply ItemSet.testBit_predict_of_core
  rw [beginning]
  exact ItemSet.testBit_startingWith.mpr ⟨q, numbers, Nonterminal.head_of_mem_productions member⟩

private theorem not_numbers_zero_of_advance {items : ItemSet} {i : Nat}
    (held : (ItemSet.advance (items &&& ItemSet.waitingFor s)).testBit i = true) :
    ¬ ItemSet.Numbers i q 0 := by
  intro begins
  cases i with
  | zero =>
    rw [testBit_advance_zero] at held
    cases held
  | succ i =>
    rw [testBit_advance, Nat.testBit_and, Bool.and_eq_true] at held
    obtain ⟨p, place, ⟨first, member, _, rfl⟩, next⟩ := ItemSet.testBit_waitingFor.mp held.2
    have inside := (List.getElem?_eq_some_iff.mp next).1
    have moved : ItemSet.Numbers (first + place + 1) p (place + 1) :=
      ⟨first, member, inside, rfl⟩
    exact absurd (begins.unique moved).2 (Nat.succ_ne_zero place).symm

/-- What begins at a vertex is what a program begins with at the first one, or what a
phrase begins with that is awaited there past a symbol. -/
theorem Holds.begun_from_core (holds : Holds number q 0) :
    number = 0 ∧ Nonterminal.program.BeginsWith q.head ∨
      ∃ p place n, Holds number p (place + 1) ∧
        p.body[place + 1]? = some (.nonterminal n) ∧ n.BeginsWith q.head := by
  obtain ⟨cores, known⟩ := exists_cores few_vertices
  obtain ⟨v, found, i, numbers, held⟩ := holds
  obtain ⟨core, numbered, expands⟩ := known.expand.2 number v found
  rw [Nat.zero_add] at numbered
  rw [expands.items] at held
  cases number with
  | zero =>
    left
    rw [known.first] at numbered
    cases numbered
    rw [beginning] at held
    refine ⟨rfl, ?_⟩
    rcases ItemSet.predict_justified held with inCore | ⟨r, n, begins, awaits, starts⟩
    · obtain ⟨r, begins, program⟩ := ItemSet.testBit_startingWith.mp inCore
      obtain ⟨rfl, _⟩ := numbers.unique begins
      exact program ▸ .refl _
    · obtain ⟨rfl, _⟩ := numbers.unique begins
      obtain ⟨p, place, ⟨i, others, inCore⟩, next⟩ := awaits
      obtain ⟨r, begins, program⟩ := ItemSet.testBit_startingWith.mp inCore
      obtain ⟨rfl, rfl⟩ := others.unique begins
      exact .cons (program ▸ Grammar.mem_productions.mp others.mem_productions) next starts
  | succ number =>
    right
    obtain ⟨all, ⟨met, s⟩, listed, rfl⟩ := known.advanced number core numbered
    obtain ⟨rfl, _⟩ := mem_symbols_meeting.mp listed
    rcases ItemSet.predict_justified held with inCore | ⟨r, n, begins, awaits, starts⟩
    · exact absurd numbers (not_numbers_zero_of_advance inCore)
    · obtain ⟨rfl, _⟩ := numbers.unique begins
      obtain ⟨p, place, ⟨i, others, inCore⟩, next⟩ := awaits
      cases place with
      | zero => exact absurd others (not_numbers_zero_of_advance inCore)
      | succ place =>
        refine ⟨p, place, n, ⟨v, found, i, others, ?_⟩, next, starts⟩
        rw [expands.items]
        exact ItemSet.testBit_predict_of_core inCore

private theorem exists_awaits_of_beginsWith {m : Nonterminal} (begins : n.BeginsWith m)
    (holds : Holds number p place) (next : p.body[place]? = some (.nonterminal n)) :
    ∃ q place, Holds number q place ∧ q.body[place]? = some (.nonterminal m) := by
  induction begins generalizing p place with
  | refl => exact ⟨p, place, holds, next⟩
  | cons member first _ ih => exact ih (holds.begin next member) first

theorem Holds.begun (holds : Holds number q 0) :
    number = 0 ∧ q.head = .program ∨
      ∃ p place, Holds number p place ∧ p.body[place]? = some (.nonterminal q.head) := by
  rcases holds.begun_from_core with ⟨rfl, begins⟩ | ⟨p, place, n, awaits, next, begins⟩
  · generalize same : q.head = head at begins
    cases begins with
    | refl => exact .inl ⟨rfl, rfl⟩
    | cons member first rest =>
      exact .inr (exists_awaits_of_beginsWith rest (holds_program member) first)
  · exact .inr (exists_awaits_of_beginsWith begins awaits next)

theorem Holds.place_eq_zero (holds : Holds 0 p place) : place = 0 := by
  obtain ⟨cores, known⟩ := exists_cores few_vertices
  obtain ⟨v, found, i, numbers, held⟩ := holds
  obtain ⟨core, numbered, expands⟩ := known.expand.2 0 v found
  rw [Nat.zero_add, known.first] at numbered
  cases numbered
  rw [expands.items] at held
  rcases ItemSet.predict_justified held with inCore | ⟨r, _, begins, _⟩
  · rw [beginning] at inCore
    obtain ⟨r, begins, _⟩ := ItemSet.testBit_startingWith.mp inCore
    exact (numbers.unique begins).2
  · exact (numbers.unique begins).2

/-- Nothing leads back to the first vertex. -/
theorem Leads.target_ne_zero (leads : Leads number s target) : target ≠ 0 := by
  rintro rfl
  obtain ⟨p, place, holds, next⟩ := leads.awaited
  exact Nat.succ_ne_zero place (leads.holds holds next).place_eq_zero

end VyperFront.Graph
