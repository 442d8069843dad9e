import VyperFront.Proofs.Automaton.Prediction

/-! The search that builds the graph. While it runs, the item sets that it knows
are numbered in the order in which they are expanded; once it ends, every vertex
is the expansion of the item set with its number. -/

namespace VyperFront.Graph

variable {symbols : ItemIndex Symbol} {phrases : ItemIndex ItemSet} {search : Search}
  {cores new : List ItemSet}

/-- The search knows the item sets of the list, numbered by their positions. -/
structure Search.Knows (search : Search) (cores : List ItemSet) : Prop where
  known : ∀ core number, search.known.get? core = some number ↔ cores[number]? = some core
  count : search.count = cores.length

theorem Search.knows_start (core : ItemSet) : (Search.start core).Knows [core] where
  known other number := by
    rw [start, Table.get?_insert]
    by_cases same : other = core
    · subst same
      cases number <;> simp
    · cases number <;> simp [same, Ne.symm same]
  count := rfl

/-- The edges lead along the awaited symbols to the item sets moved past them. -/
def Connects (cores : List ItemSet) (awaited : List (ItemSet × Symbol))
    (edges : List (Symbol × Nat)) : Prop :=
  List.Forall₂ (fun pair edge => edge.1 = pair.2 ∧
    cores[edge.2]? = some (ItemSet.advance pair.1)) awaited edges

private theorem getElem?_append_of_some {core : ItemSet} {number : Nat}
    (found : cores[number]? = some core) : (cores ++ new)[number]? = some core := by
  rw [List.getElem?_append_left (List.getElem?_eq_some_iff.mp found).1, found]

theorem Connects.append {awaited : List (ItemSet × Symbol)} {edges : List (Symbol × Nat)}
    (connects : Connects cores awaited edges) : Connects (cores ++ new) awaited edges :=
  connects.imp fun _ _ ⟨same, found⟩ => ⟨same, getElem?_append_of_some found⟩

theorem Connects.exists_awaited {awaited : List (ItemSet × Symbol)} {edges : List (Symbol × Nat)}
    {s : Symbol} {target : Nat} (connects : Connects cores awaited edges)
    (edge : (s, target) ∈ edges) :
    ∃ met, (met, s) ∈ awaited ∧ cores[target]? = some (ItemSet.advance met) := by
  induction connects with
  | nil => cases edge
  | @cons pair other awaited edges related _ ih =>
    rcases List.mem_cons.mp edge with rfl | later
    · obtain ⟨rfl, found⟩ := related
      exact ⟨pair.1, by simp, found⟩
    · obtain ⟨met, member, found⟩ := ih later
      exact ⟨met, by simp [member], found⟩

theorem Connects.exists_edge {awaited : List (ItemSet × Symbol)} {edges : List (Symbol × Nat)}
    {s : Symbol} {met : ItemSet} (connects : Connects cores awaited edges)
    (member : (met, s) ∈ awaited) : ∃ target, (s, target) ∈ edges := by
  induction connects with
  | nil => cases member
  | @cons pair other awaited edges related _ ih =>
    rcases List.mem_cons.mp member with rfl | later
    · exact ⟨other.2, List.mem_cons.mpr (.inl (Prod.ext related.1.symm rfl))⟩
    · obtain ⟨target, present⟩ := ih later
      exact ⟨target, by simp [present]⟩

theorem Connects.map_fst {awaited : List (ItemSet × Symbol)} {edges : List (Symbol × Nat)}
    (connects : Connects cores awaited edges) : edges.map Prod.fst = awaited.map Prod.snd := by
  induction connects with
  | nil => rfl
  | cons related _ ih => rw [List.map_cons, List.map_cons, ih, related.1]

theorem Search.Knows.visit (knows : search.Knows cores) (core : ItemSet) :
    ∃ new, (search.visit core).2.Knows (cores ++ new) ∧
      (search.visit core).2.pending = new.reverse ++ search.pending ∧
      (cores ++ new)[(search.visit core).1]? = some core ∧ ∀ other ∈ new, other = core := by
  cases found : search.known.get? core with
  | some number =>
    refine ⟨[], ?_⟩
    simp only [Search.visit, found, List.append_nil]
    exact ⟨knows, rfl, (knows.known core number).mp found, by simp⟩
  | none =>
    refine ⟨[core], ?_⟩
    simp only [Search.visit, found]
    refine ⟨⟨fun other number => ?_, ?_⟩, rfl, ?_, by simp⟩
    · have absent : cores[number]? ≠ some core := by
        rw [Ne, ← knows.known, found]
        simp
      rw [Table.get?_insert, knows.count]
      by_cases same : other = core
      · subst same
        grind
      · rw [if_neg same, knows.known]
        grind
    · simp [knows.count]
    · simp [knows.count]

theorem Search.Knows.connect (awaited : List (ItemSet × Symbol)) (knows : search.Knows cores) :
    ∃ new, (search.connect awaited).2.Knows (cores ++ new) ∧
      (search.connect awaited).2.pending = new.reverse ++ search.pending ∧
      Connects (cores ++ new) awaited (search.connect awaited).1 ∧
      ∀ core ∈ new, ∃ pair ∈ awaited, core = ItemSet.advance pair.1 := by
  induction awaited generalizing search cores with
  | nil => exact ⟨[], by simpa [Search.connect] using knows, rfl, .nil, by simp⟩
  | cons pair rest ih =>
    obtain ⟨first, knowsFirst, pendingFirst, found, onlyCore⟩ :=
      knows.visit (ItemSet.advance pair.1)
    obtain ⟨later, knowsLater, pendingLater, connects, advanced⟩ := ih knowsFirst
    refine ⟨first ++ later, ?_, ?_, ?_, ?_⟩
    · rw [← List.append_assoc]
      exact knowsLater
    · rw [List.reverse_append, List.append_assoc, ← pendingFirst]
      exact pendingLater
    · rw [← List.append_assoc]
      exact .cons ⟨rfl, getElem?_append_of_some found⟩ connects
    · intro core member
      rcases List.mem_append.mp member with inFirst | inLater
      · exact ⟨pair, by simp, onlyCore core inFirst⟩
      · obtain ⟨other, present, same⟩ := advanced core inLater
        exact ⟨other, by simp [present], same⟩

/-- The vertex expands the item set. -/
structure Expands (symbols : ItemIndex Symbol) (phrases : ItemIndex ItemSet)
    (cores : List ItemSet) (core : ItemSet) (v : Vertex) : Prop where
  items : v.items = ItemSet.predict phrases core
  edges : Connects cores (symbols.meeting v.items) v.edges

/-- The item set comes from another one by moving items past a symbol. -/
def Advanced (symbols : ItemIndex Symbol) (core : ItemSet) : Prop :=
  ∃ all, ∃ pair ∈ symbols.meeting all, core = ItemSet.advance pair.1

/-- The vertices, numbered from a number on, expand the item sets with their
numbers. -/
def Expand (symbols : ItemIndex Symbol) (phrases : ItemIndex ItemSet) (cores : List ItemSet)
    (start : Nat) (vertices : List Vertex) : Prop :=
  start + vertices.length = cores.length ∧
    ∀ i v, vertices[i]? = some v →
      ∃ core, cores[start + i]? = some core ∧ Expands symbols phrases cores core v

theorem Expand.cons {others : List Vertex} (here : cores[start]? = some core)
    (expands : Expands symbols phrases cores core v)
    (rest : Expand symbols phrases cores (start + 1) others) :
    Expand symbols phrases cores start (v :: others) := by
  refine ⟨?_, fun i other at_i => ?_⟩
  · rw [List.length_cons, ← rest.1]
    omega
  · cases i with
    | zero =>
      cases at_i
      exact ⟨core, here, expands⟩
    | succ i =>
      rw [show start + (i + 1) = start + 1 + i by omega]
      exact rest.2 i other at_i

private theorem getElem?_of_queue {start : Nat} {core : ItemSet} {rest waiting : List ItemSet}
    (queue : core :: rest ++ waiting = cores.drop start) :
    cores[start]? = some core ∧ start < cores.length := by
  have here : cores[start]? = some core := by
    rw [← List.head?_drop, ← queue]
    rfl
  exact ⟨here, (List.getElem?_eq_some_iff.mp here).1⟩

/-- The item sets that a vertex brings are put in the queue behind those known before. -/
private theorem queue_append {start : Nat} {core : ItemSet} {rest pending later : List ItemSet}
    (queue : core :: rest ++ pending.reverse = cores.drop start) (before : start < cores.length)
    (brought : later = new.reverse ++ pending) :
    rest ++ later.reverse = (cores ++ new).drop (start + 1) := by
  rw [brought, List.reverse_append, List.reverse_reverse, ← List.append_assoc,
    List.drop_append_of_le_length (by omega), ← List.drop_drop, ← queue]
  rfl

/-- Either the search used up its steps, which takes half as many vertices, or it
expanded every item set that it came to know. -/
theorem explore_expand (symbols : ItemIndex Symbol) (phrases : ItemIndex ItemSet)
    (steps : Nat) {current : List ItemSet} {start : Nat} (knows : search.Knows cores)
    (begun : start ≤ cores.length)
    (queue : current ++ search.pending.reverse = cores.drop start) :
    (steps ≤ 2 * (explore symbols phrases steps current search).length + 1 ∧
      (current ≠ [] → steps ≤ 2 * (explore symbols phrases steps current search).length)) ∨
    ∃ new, Expand symbols phrases (cores ++ new) start
        (explore symbols phrases steps current search) ∧
      ∀ core ∈ new, Advanced symbols core := by
  induction steps generalizing current search cores start with
  | zero => exact .inl ⟨Nat.zero_le _, fun _ => Nat.zero_le _⟩
  | succ steps ih =>
    cases current with
    | nil =>
      cases waiting : search.pending with
      | nil =>
        right
        rw [waiting] at queue
        have ended : cores.length ≤ start := List.drop_eq_nil_iff.mp queue.symm
        refine ⟨[], ⟨?_, ?_⟩, by simp⟩
        · simp [explore, waiting]
          omega
        · simp [explore, waiting]
      | cons core rest =>
        have emptied : Search.Knows { search with pending := [] } cores :=
          ⟨knows.known, knows.count⟩
        have turned : search.pending.reverse ++ [].reverse = cores.drop start := by
          simpa using queue
        have next := ih emptied begun turned
        simp only [explore, waiting] at next ⊢
        refine next.imp (fun short => ⟨?_, ?_⟩) id
        · have := short.2 (by simp)
          omega
        · simp
    | cons core rest =>
      obtain ⟨here, before⟩ := getElem?_of_queue queue
      obtain ⟨found, knowsFound, pendingFound, connects, advanced⟩ :=
        knows.connect (symbols.meeting (ItemSet.predict phrases core))
      have begunNext : start + 1 ≤ (cores ++ found).length := by
        simp
        omega
      have queueNext := queue_append queue before pendingFound
      simp only [explore]
      rcases ih knowsFound begunNext queueNext with short | ⟨later, expand, advancedLater⟩
      · left
        simp only [List.length_cons]
        omega
      · right
        refine ⟨found ++ later, ?_, ?_⟩
        · rw [← List.append_assoc]
          exact .cons (getElem?_append_of_some (getElem?_append_of_some here))
            ⟨rfl, connects.append⟩ expand
        · intro other member
          rcases List.mem_append.mp member with inFound | inLater
          · obtain ⟨pair, present, same⟩ := advanced other inFound
            exact ⟨_, pair, present, same⟩
          · exact advancedLater other inLater

/-- The item sets of the vertices. All but the first come from another one, and
the first is the beginning of a program. -/
structure Cores (cores : List ItemSet) : Prop where
  first : cores[0]? = some beginning
  expand : Expand Graph.symbols Graph.phrases cores 0 vertices
  advanced : ∀ number core, cores[number + 1]? = some core → Advanced Graph.symbols core

/-- Few vertices show that the search was not cut short. -/
theorem exists_cores (few : vertices.length < 500) : ∃ cores, Cores cores := by
  have queue : [beginning] ++ (Search.start beginning).pending.reverse =
      [beginning].drop 0 := rfl
  have searched := explore_expand symbols phrases 1000 (Search.knows_start beginning)
    (Nat.zero_le _) queue
  rw [← vertices] at searched
  rcases searched with short | ⟨new, expand, advanced⟩
  · have := short.2 (by simp)
    omega
  · exact ⟨beginning :: new, rfl, expand, fun number core found =>
      advanced core (List.mem_of_getElem? found)⟩

end VyperFront.Graph
