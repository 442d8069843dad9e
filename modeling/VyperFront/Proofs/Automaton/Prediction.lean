import VyperFront.Automaton.Graph
import VyperFront.Proofs.Automaton.ItemSet

namespace VyperFront

theorem Nonterminal.head_of_mem_productions {n : Nonterminal} {p : Production}
    (member : p ∈ n.productions) : p.head = n := by
  obtain ⟨rule, _, listed⟩ := List.mem_flatMap.mp member
  obtain ⟨slots, _, rfl⟩ := List.mem_map.mp listed
  rfl

/-- The phrase can begin with the other one, or is it. -/
inductive Nonterminal.BeginsWith : Nonterminal → Nonterminal → Prop where
  | refl (n : Nonterminal) : BeginsWith n n
  | cons {p : Production} (member : p ∈ n.productions)
    (first : p.body[0]? = some (.nonterminal m)) (rest : BeginsWith m k) : BeginsWith n k

theorem Nonterminal.BeginsWith.trans {n m k : Nonterminal} (begins : n.BeginsWith m)
    (more : m.BeginsWith k) : n.BeginsWith k := by
  induction begins with
  | refl => exact more
  | cons member first _ ih => exact .cons member first (ih more)

namespace ItemSet

variable {items core : ItemSet} {p : Production} {place number : Nat} {n : Nonterminal}
  {s : Symbol} {sets : List ItemSet}

theorem not_awaits_zero : ¬ Awaits 0 s := by
  rintro ⟨p, place, ⟨number, _, held⟩, _⟩
  simp at held

/-- Closing the sets once more. -/
def closeOnce (sets : List ItemSet) : List ItemSet := sets.map (predict (byWaiting sets))

theorem testBit_closeOnce : (broughtBy (closeOnce sets) n).testBit number = true ↔
    (broughtBy sets n).testBit number = true ∨
      ∃ m, Awaits (broughtBy sets n) (.nonterminal m) ∧
        (broughtBy sets m).testBit number = true := by
  cases found : sets[n.ctorIdx]? with
  | none =>
    have before : broughtBy sets n = 0 := by rw [broughtBy, found]; rfl
    have after : broughtBy (closeOnce sets) n = 0 := by
      rw [broughtBy, closeOnce, List.getElem?_map, found]
      rfl
    simp [before, after, not_awaits_zero]
  | some set =>
    have before : broughtBy sets n = set := by rw [broughtBy, found]; rfl
    have after : broughtBy (closeOnce sets) n = predict (byWaiting sets) set := by
      rw [broughtBy, closeOnce, List.getElem?_map, found]
      rfl
    rw [before, after, testBit_predict]

private theorem close_induction {P : List ItemSet → Prop}
    (step : ∀ sets, P sets → P (closeOnce sets)) (rounds : Nat) (initial : P sets) :
    P (close rounds sets) := by
  induction rounds generalizing sets with
  | zero => exact initial
  | succ rounds ih =>
    simp only [close, cond_eq_ite]
    split
    · exact initial
    · exact ih (step sets initial)

private theorem broughtBy_starting (n : Nonterminal) :
    broughtBy (Nonterminal.all.map startingWith) n = startingWith n := by
  rw [broughtBy, List.getElem?_map, n.getElem?_all, Option.map_some, Option.getD_some]

theorem testBit_brought_of_starting (starts : (startingWith n).testBit number = true) :
    (broughtBy brought n).testBit number = true := by
  rw [brought]
  refine close_induction (P := fun sets => (broughtBy sets n).testBit number = true)
    (fun sets held => testBit_closeOnce.mpr (.inl held)) _ ?_
  rwa [broughtBy_starting]

/-- All that a phrase brings begins phrases that it can begin with. -/
def Justified (items : ItemSet) (n : Nonterminal) : Prop :=
  ∀ number, items.testBit number = true → ∃ p, Numbers number p 0 ∧ n.BeginsWith p.head

theorem Justified.beginsWith {m : Nonterminal} (justified : Justified items n)
    (awaits : Awaits items (.nonterminal m)) : n.BeginsWith m := by
  obtain ⟨q, place, ⟨number, numbers, held⟩, next⟩ := awaits
  obtain ⟨p, begins, starts⟩ := justified number held
  obtain ⟨rfl, rfl⟩ := begins.unique numbers
  exact starts.trans (.cons (Grammar.mem_productions.mp numbers.mem_productions) next (.refl m))

theorem justified_brought (n : Nonterminal) : Justified (broughtBy brought n) n := by
  rw [brought]
  refine close_induction (P := fun sets => ∀ n, Justified (broughtBy sets n) n) ?_ _ ?_ n
  · intro sets justified n number held
    rcases testBit_closeOnce.mp held with before | ⟨m, awaits, added⟩
    · exact justified n number before
    · obtain ⟨p, numbers, begins⟩ := justified m number added
      exact ⟨p, numbers, ((justified n).beginsWith awaits).trans begins⟩
  · intro n number held
    rw [broughtBy_starting] at held
    obtain ⟨p, numbers, rfl⟩ := testBit_startingWith.mp held
    exact ⟨p, numbers, .refl _⟩

theorem testBit_predict_phrases :
    (predict Graph.phrases items).testBit number = true ↔
      items.testBit number = true ∨
        ∃ n, Awaits items (.nonterminal n) ∧ (broughtBy brought n).testBit number = true := by
  rw [Graph.phrases, testBit_predict]

theorem testBit_predict_of_core (held : core.testBit number = true) :
    (predict Graph.phrases core).testBit number = true :=
  testBit_predict_phrases.mpr (.inl held)

/-- What was not in the core begins a phrase that one awaited in the core can begin with. -/
theorem predict_justified (held : (predict Graph.phrases core).testBit number = true) :
    core.testBit number = true ∨
      ∃ p n, Numbers number p 0 ∧ Awaits core (.nonterminal n) ∧ n.BeginsWith p.head := by
  refine (testBit_predict_phrases.mp held).imp_right ?_
  rintro ⟨n, awaits, added⟩
  obtain ⟨p, numbers, begins⟩ := justified_brought n number added
  exact ⟨p, n, numbers, awaits, begins⟩

/-- Closing the sets that phrases bring once more adds nothing. -/
def Settled : Prop := closeOnce brought = brought

theorem holds_of_awaits (settled : Settled)
    (awaits : Awaits (predict Graph.phrases core) (.nonterminal n)) (member : p ∈ n.productions) :
    Holds (predict Graph.phrases core) p 0 := by
  obtain rfl := Nonterminal.head_of_mem_productions member
  obtain ⟨number, present⟩ := exists_mem_numbered.mpr (Grammar.mem_productions.mpr member)
  have numbers : Numbers number p 0 := ⟨number, present, Nat.zero_le _, rfl⟩
  have starts : (broughtBy brought p.head).testBit number = true :=
    testBit_brought_of_starting (testBit_startingWith.mpr ⟨p, numbers, rfl⟩)
  refine ⟨number, numbers, testBit_predict_phrases.mpr (.inr ?_)⟩
  obtain ⟨q, position, ⟨other, others, held⟩, found⟩ := awaits
  rcases testBit_predict_phrases.mp held with inCore | ⟨m, awaits, added⟩
  · exact ⟨p.head, ⟨q, position, ⟨other, others, inCore⟩, found⟩, starts⟩
  · refine ⟨m, awaits, ?_⟩
    rw [← settled]
    exact testBit_closeOnce.mpr
      (.inr ⟨p.head, ⟨q, position, ⟨other, others, added⟩, found⟩, starts⟩)

end ItemSet

end VyperFront
