import VyperFront.Proofs.Automaton.Action

/-! Where the automaton awaits keywords. A keyword is awaited together with names, so that
either begins what comes next, unless it goes on with a phrase that has just ended. -/

namespace VyperFront

/-- The phrases that a statement ends, and those that a condition as a statement does. -/
def Nonterminal.ended : Nonterminal → List Nonterminal
  | ifStatement => [compoundStatement]
  | compoundStatement => [statement]
  | statement => [fileItems, statements]
  | _ => []

/-- Whether what comes after a phrase in a production begins with a name, too, if it begins
with a keyword. A further branch may come after the blocks of a condition. -/
def Grammar.afterWords (occurrence : Nonterminal × Nonterminal × Onset) : Bool :=
  let (head, n, after) := occurrence
  (after.first.contains .name || Terminal.all.all fun t =>
    !(t.isOpening && after.first.contains t) || t == .kwElif &&
      (head == .ifStatement && n == .block || head == .elifClauses && n == .elifClauses)) &&
  (n.ended.isEmpty || n.ended.contains head && after.empty)

private theorem Grammar.afterWords_checked : occurrences.all afterWords = true := by
  decide +kernel

namespace Graph

variable {number target origin place : Nat} {p q : Production} {n : Nonterminal} {s : Symbol}
  {t : Terminal}

private theorem testBit_targets {bits : List Nat} :
    (bits.foldr (fun target bits => 1 <<< target ||| bits) 1).testBit number = true ↔
      number ∈ bits ∨ number = 0 := by
  induction bits with
  | nil =>
    rw [List.foldr_nil, ← Nat.pow_zero 2, Nat.testBit_two_pow]
    simp [eq_comm]
  | cons target rest ih =>
    rw [List.foldr_cons, Nat.testBit_or, Bool.or_eq_true, ih, Nat.one_shiftLeft,
      Nat.testBit_two_pow, decide_eq_true_eq, List.mem_cons, or_assoc, eq_comm]

-- For any vertices, so that nothing evaluates those of the graph.
private theorem exists_edge_of_checked {vertices : List Vertex}
    (checked : wordsChecked vertices = true) (inside : number < vertices.length)
    (other : number ≠ 0) : ∃ v ∈ vertices, ∃ s, (s, number) ∈ v.edges := by
  rw [wordsChecked, Bool.and_eq_true, Bool.and_eq_true, beq_iff_eq] at checked
  have bit : (targets vertices).testBit number = true := by
    rw [checked.1.1, Nat.testBit_two_pow_sub_one, decide_eq_true inside]
  obtain ⟨v, member, listed⟩ := List.mem_flatMap.mp ((testBit_targets.mp bit).resolve_right other)
  obtain ⟨⟨s, target⟩, edge, rfl⟩ := List.mem_map.mp listed
  exact ⟨v, member, s, edge⟩

private theorem Holds.exists_edge (holds : Holds number p place) (other : number ≠ 0) :
    ∃ origin s, Leads origin s number := by
  obtain ⟨v, found, _⟩ := holds
  obtain ⟨w, member, s, edge⟩ :=
    exists_edge_of_checked words_checked (List.getElem?_eq_some_iff.mp found).1 other
  obtain ⟨origin, found⟩ := List.mem_iff_getElem?.mp member
  exact ⟨origin, s, w, found, edge⟩

private theorem Holds.exists_origin (holds : Holds number p place) :
    ∃ origin, Holds origin p 0 ∧ Path origin (p.body.take place) number := by
  induction place generalizing number with
  | zero => exact ⟨number, holds, by simpa using .nil number⟩
  | succ place ih =>
    have other : number ≠ 0 := by
      rintro rfl
      exact Nat.succ_ne_zero place holds.place_eq_zero
    obtain ⟨middle, s, leads⟩ := holds.exists_edge other
    obtain ⟨next, before⟩ := leads.back holds
    obtain ⟨origin, begins, path⟩ := ih before
    refine ⟨origin, begins, ?_⟩
    rw [List.take_add_one, next]
    exact path.snoc leads

private theorem Holds.exists_stands (holds : Holds number p place)
    (next : p.body[place]? = some (.nonterminal n)) :
    ∃ origin, Stands origin p number n (p.body.drop (place + 1)) := by
  obtain ⟨origin, begins, path⟩ := holds.exists_origin
  obtain ⟨inside, same⟩ := List.getElem?_eq_some_iff.mp next
  refine ⟨origin, begins, p.body.take place, ?_, path⟩
  rw [← same, List.cons_getElem_drop_succ, List.take_append_drop]

private theorem Holds.sibling (holds : Holds number p 0) (member : q ∈ p.head.productions) :
    Holds number q 0 := by
  rcases holds.begun with ⟨rfl, program⟩ | ⟨other, place, awaits, next⟩
  · exact holds_program (program ▸ member)
  · exact awaits.begin next member

/-- A phrase that begins at a vertex stands in a production there. -/
private theorem Holds.exists_within (holds : Holds number p 0) (other : p.head ≠ .program) :
    ∃ origin q after, Stands origin q number p.head after := by
  rcases holds.begun with ⟨_, program⟩ | ⟨q, place, awaits, next⟩
  · exact absurd program other
  · obtain ⟨origin, stands⟩ := awaits.exists_stands next
    exact ⟨origin, q, _, stands⟩

private theorem Stands.afterWords {after : List Symbol} (stands : Stands origin q number n after) :
    Grammar.afterWords (q.head, n, Onset.ofSymbols Grammar.onsets after) = true :=
  List.all_eq_true.mp Grammar.afterWords_checked _ stands.mem_occurrences

private theorem follows_name_of_ended (holds : Holds number p 0) (some : p.head.ended ≠ [])
    (above : ∀ {origin q}, Holds origin q 0 → q.head ∈ p.head.ended → Follows origin q.head .name) :
    Follows number p.head .name := by
  have other : p.head ≠ .program := by
    intro program
    rw [program] at some
    exact some rfl
  obtain ⟨origin, q, after, stands⟩ := holds.exists_within other
  have checked := stands.afterWords
  simp only [Grammar.afterWords, Bool.and_eq_true, Bool.or_eq_true, List.isEmpty_iff, some,
    false_or, List.contains_iff_mem] at checked
  exact .ending stands checked.2.2 (above stands.1 checked.2.1)

/-- After a statement there can be another one, which begins with a name. -/
private theorem follows_name_of_items (holds : Holds number p 0)
    (items : p.head ∈ [.fileItems, .statements]) : Follows number p.head .name := by
  have begins : (Onset.ofSymbols Grammar.onsets [.nonterminal .statement]).first.contains .name =
      true := by decide +kernel
  have more : ∀ n ∈ [Nonterminal.fileItems, .statements],
      (⟨n, .splice, [.kept (.nonterminal n), .kept (.nonterminal .statement)]⟩ : Production) ∈
        n.productions := by decide
  exact .within ⟨holds.sibling (more _ items), [], rfl, .nil number⟩ begins

private theorem follows_name_of_condition (holds : Holds number p 0)
    (condition : p.head = .ifStatement) : Follows number p.head .name := by
  refine follows_name_of_ended holds (by simp [condition, Nonterminal.ended]) fun holds member => ?_
  have compound := List.mem_singleton.mp (condition ▸ member)
  refine follows_name_of_ended holds (by simp [compound, Nonterminal.ended]) fun holds member => ?_
  have statement := List.mem_singleton.mp (compound ▸ member)
  refine follows_name_of_ended holds (by simp [statement, Nonterminal.ended]) fun holds member => ?_
  rw [statement] at member
  exact follows_name_of_items holds member

/-- A name can follow a block or further branches in a condition, which may end there. -/
private theorem follows_name_of_part (holds : Holds number p place)
    (condition : p.head = .ifStatement) (next : p.body[place]? = some (.nonterminal n))
    (part : n ∈ [.block, .elifClauses]) : Follows number n .name := by
  have ends : ∀ p ∈ Nonterminal.ifStatement.productions, ∀ place ∈ List.range p.body.length,
      ∀ n ∈ [Nonterminal.block, .elifClauses], p.body[place]? = some (.nonterminal n) →
        ∃ q ∈ Nonterminal.ifStatement.productions,
          q.body = p.body.take place ++ [.nonterminal n] := by decide
  have member := holds.mem_productions
  obtain ⟨inside, _⟩ := List.getElem?_eq_some_iff.mp next
  obtain ⟨q, also, body⟩ :=
    ends p (condition ▸ member) place (List.mem_range.mpr inside) n part next
  obtain ⟨origin, begins, path⟩ := holds.exists_origin
  have others : Holds origin q 0 := begins.sibling (condition ▸ also)
  have head := Nonterminal.head_of_mem_productions also
  exact .ending ⟨others, _, body, path⟩ rfl (follows_name_of_condition others head)

private theorem Leads.awaitsName (leads : Leads number s target) :
    ∃ v, Graph.vertices[number]? = some v ∧ Graph.awaitsName v s = true := by
  obtain ⟨v, found, edge⟩ := leads
  have checked := words_checked
  rw [wordsChecked, Bool.and_eq_true, Bool.and_eq_true, List.all_eq_true] at checked
  have edges := checked.1.2 v (List.mem_of_getElem? found)
  exact ⟨v, found, List.all_eq_true.mp edges (s, target) edge⟩

private theorem holds_of_mem_toItems {v : Vertex} (found : vertices[number]? = some v)
    (member : (p, place) ∈ v.items.toItems) : Holds number p place := by
  obtain ⟨⟨first, q⟩, numbered, item⟩ := List.mem_flatMap.mp member
  obtain ⟨position, inside, same⟩ := List.mem_filterMap.mp item
  split at same
  · next held =>
    cases same
    exact ⟨v, found, _, ⟨first, numbered, by simpa [Nat.lt_succ_iff] using inside, rfl⟩, held⟩
  · cases same

private theorem follows_name_elifClauses (leads : Leads number (.nonterminal .elifClauses) target) :
    Follows number .elifClauses .name := by
  obtain ⟨v, found, awaits⟩ := leads.awaitsName
  simp only [awaitsName, List.any_eq_true, Bool.and_eq_true, beq_iff_eq, Prod.exists] at awaits
  obtain ⟨p, place, member, condition, next⟩ := awaits
  exact follows_name_of_part (holds_of_mem_toItems found member) condition next (by decide)

/-- A name can follow whatever a keyword can follow that begins something. -/
theorem Follows.name (follows : Follows number n t) (opening : t.isOpening = true) :
    Follows number n .name := by
  induction follows with
  | program => cases opening
  | ending stands empty _ ih => exact .ending stands empty (ih opening)
  | @within origin number q n after t stands first =>
    have checked := stands.afterWords
    simp only [Grammar.afterWords, Bool.and_eq_true, Bool.or_eq_true, List.all_eq_true,
      Bool.not_eq_true', beq_iff_eq] at checked
    obtain ⟨place, holds, next, _⟩ := stands.holds
    have awaits : q.body[place]? = some (.nonterminal n) := by
      rw [← List.head?_drop, next]
      rfl
    rcases checked.1 with also | words
    · exact .within stands also
    · rcases words t t.mem_all with never | ⟨_, ⟨condition, rfl⟩ | ⟨_, rfl⟩⟩
      · rw [opening, first] at never
        cases never
      · exact follows_name_of_part holds condition awaits (by decide)
      · obtain ⟨target, leads⟩ := holds.exists_leads awaits
        exact follows_name_elifClauses leads

private theorem path_of_walk {part : List Symbol}
    (walked : walk vertices number part = some target) : Path number part target := by
  induction part generalizing number with
  | nil =>
    cases walked
    exact .nil _
  | cons s rest ih =>
    rw [walk] at walked
    split at walked
    · next found =>
      obtain ⟨v, here, first⟩ := Option.bind_eq_some_iff.mp found
      have same := List.find?_some first
      obtain rfl := beq_iff_eq.mp same
      exact .cons ⟨v, here, List.mem_of_find?_eq_some first⟩ (ih walked)
    · cases walked

/-- No name is awaited after `from` and a name. -/
theorem exists_path_import : ∃ number, Path 0 [.terminal .kwFrom, .terminal .name] number ∧
    (automaton.state number).expected.contains .name = false := by
  have checked := words_checked
  rw [wordsChecked, Bool.and_eq_true, Option.any_eq_true] at checked
  obtain ⟨number, walked, here⟩ := checked.2
  rw [Option.any_eq_true] at here
  obtain ⟨v, found, awaits⟩ := here
  rw [awaitsNoName, Bool.and_eq_true, List.all_eq_true, List.all_eq_true] at awaits
  refine ⟨number, path_of_walk walked, ?_⟩
  rw [← Bool.not_eq_true, Automaton.contains_expected]
  rintro (⟨target, w, also, edge⟩ | ⟨p, reduces⟩)
  · obtain rfl := Option.some.inj (found.symm.trans also)
    simpa using awaits.1 _ edge
  · obtain ⟨w, also, items⟩ := reduces.holds
    obtain rfl := Option.some.inj (found.symm.trans also)
    have complete := awaits.2 _ (mem_toItems items)
    obtain ⟨origin, _, _, follows⟩ := reduces
    simp [follows.followers] at complete

end Graph

/-- Where the automaton can act on a keyword that begins something, it can act on a name. -/
theorem Automaton.expects_name {number : Nat} {t : Terminal} (opening : t.isOpening = true)
    (expected : (automaton.state number).expected.contains t = true) :
    (automaton.state number).expected.contains .name = true := by
  rw [contains_expected] at expected ⊢
  rcases expected with ⟨target, leads⟩ | ⟨p, origin, begins, path, follows⟩
  · obtain ⟨v, found, awaits⟩ := leads.awaitsName
    rw [Graph.awaitsName.eq_def] at awaits
    split at awaits
    · simp only [List.any_eq_true, Bool.and_eq_true, beq_iff_eq, Prod.exists] at awaits
      obtain ⟨p, place, member, condition, rfl⟩ := awaits
      obtain ⟨origin, begins, path⟩ := (Graph.holds_of_mem_toItems found member).exists_origin
      rw [List.take_length] at path
      refine .inr ⟨p, origin, begins, path, ?_⟩
      exact Graph.follows_name_of_condition begins condition
    · next same => cases same
    · next same =>
      cases same
      rw [opening, Bool.not_true, Bool.false_or, List.any_eq_true] at awaits
      obtain ⟨⟨s, other⟩, edge, same⟩ := awaits
      exact .inl ⟨other, v, found, beq_iff_eq.mp same ▸ edge⟩
    · next same => cases same
  · exact .inr ⟨p, origin, begins, path, follows.name opening⟩

end VyperFront
