import VyperFront.Proofs.Automaton.Prediction
import VyperFront.Proofs.Grammar.Derivation
import VyperFront.Proofs.Grammar.Recast

/-! Every phrase derives tokens. The phrases that do are found round by round: a phrase
does if one of its productions has only tokens and phrases found before. What has been begun
can therefore be derived to its end, from whatever tokens have been read of it. -/

namespace VyperFront

namespace Grammar

/-- Whether the symbol is a token or one of the phrases. -/
def knows (known : List Nonterminal) : Symbol → Bool
  | .terminal _ => true
  | .nonterminal n => known.contains n

/-- Adds the phrase if one of its productions has nothing but known symbols. -/
def learn (known : List Nonterminal) (n : Nonterminal) : List Nonterminal :=
  if n.productions.any fun p => p.body.all (knows known) then n :: known else known

/-- The phrases found in some rounds. Those that stand for tokens come last in the grammar. -/
def productive (rounds : Nat) : List Nonterminal :=
  (List.replicate rounds Nonterminal.all.reverse).flatten.foldl learn []

set_option maxRecDepth 10000 in
private theorem all_productive :
    (Nonterminal.all.all fun n => (productive 3).contains n) = true := by
  decide

end Grammar

namespace Derivation

/-- Each symbol has a derivation, if each phrase among them is known to have one. -/
private theorem exists_of_knows {known : List Nonterminal}
    (derived : ∀ n ∈ known, ∃ d : Derivation, d.Valid ∧ d.symbol = .nonterminal n)
    {symbols : List Symbol} (knows : symbols.all (Grammar.knows known) = true) :
    ∃ parts : List Derivation, (∀ d ∈ parts, d.Valid) ∧ parts.map symbol = symbols := by
  induction symbols with
  | nil => exact ⟨[], List.forall_mem_nil _, rfl⟩
  | cons s rest ih =>
    rw [List.all_cons, Bool.and_eq_true] at knows
    obtain ⟨parts, valid, rfl⟩ := ih knows.2
    obtain ⟨d, first, rfl⟩ : ∃ d : Derivation, d.Valid ∧ d.symbol = s := by
      cases s with
      | terminal k => exact ⟨.token ⟨k, [], default⟩, .token _, rfl⟩
      | nonterminal n => exact derived n (List.contains_iff_mem.mp knows.1)
    exact ⟨d :: parts, List.forall_mem_cons.mpr ⟨first, valid⟩, rfl⟩

private theorem exists_of_mem_foldl {known found : List Nonterminal}
    (derived : ∀ n ∈ known, ∃ d : Derivation, d.Valid ∧ d.symbol = .nonterminal n) :
    ∀ n ∈ found.foldl Grammar.learn known,
      ∃ d : Derivation, d.Valid ∧ d.symbol = .nonterminal n := by
  induction found generalizing known with
  | nil => exact derived
  | cons m rest ih =>
    refine ih fun n member => ?_
    rw [Grammar.learn] at member
    split at member
    · next found =>
      rcases List.mem_cons.mp member with rfl | before
      · obtain ⟨p, listed, knows⟩ := List.any_eq_true.mp found
        obtain ⟨parts, valid, body⟩ := exists_of_knows derived knows
        obtain rfl := Nonterminal.head_of_mem_productions listed
        exact ⟨.phrase p parts, .phrase (Grammar.mem_productions.mpr listed) body valid, rfl⟩
      · exact derived n before
    · exact derived n member

theorem exists_valid (n : Nonterminal) :
    ∃ d : Derivation, d.Valid ∧ d.symbol = .nonterminal n := by
  have listed := List.all_eq_true.mp Grammar.all_productive n n.mem_all
  exact exists_of_mem_foldl (List.forall_mem_nil _) n (List.contains_iff_mem.mp listed)

theorem exists_parts (symbols : List Symbol) :
    ∃ parts : List Derivation, (∀ d ∈ parts, d.Valid) ∧ parts.map symbol = symbols := by
  refine exists_of_knows (fun n (_ : n ∈ Nonterminal.all) => exists_valid n) ?_
  refine List.all_eq_true.mpr fun s _ => ?_
  cases s with
  | terminal k => rfl
  | nonterminal n => exact List.contains_iff_mem.mpr n.mem_all

/-- What begins a phrase is the beginning of a derivation of it. -/
theorem exists_around {n m : Nonterminal} (begins : n.BeginsWith m) {e : Derivation}
    (valid : e.Valid) (symbol : e.symbol = .nonterminal m) :
    ∃ (d : Derivation) (rest : List SourceToken),
      d.Valid ∧ d.symbol = .nonterminal n ∧ d.yield = e.yield ++ rest := by
  induction begins with
  | refl => exact ⟨e, [], valid, symbol, (List.append_nil _).symm⟩
  | @cons m k n p member first _ ih =>
    obtain ⟨d, rest, valid, same, yield⟩ := ih symbol
    obtain ⟨parts, valids, others⟩ := exists_parts (p.body.drop 1)
    have inside := (List.getElem?_eq_some_iff.mp first).1
    have body : (d :: parts).map Derivation.symbol = p.body := by
      rw [List.map_cons, others, same]
      cases whole : p.body with
      | nil => simp [whole] at first
      | cons s later => simpa [whole, eq_comm] using first
    obtain rfl := Nonterminal.head_of_mem_productions member
    refine ⟨.phrase p (d :: parts), rest ++ yields parts,
      .phrase (Grammar.mem_productions.mpr member) body ?_, rfl, ?_⟩
    · exact List.forall_mem_cons.mpr ⟨valid, valids⟩
    · rw [Derivation.yield, yields, yield, List.append_assoc]

end Derivation

/-! Errors are found at once. What the machine has shifted can always be completed to a
source file: the productions in progress on the stack are finished one after the other,
innermost first. And no source file goes on with a token that the machine refuses. -/

open VyperFront.Graph

namespace Stack

variable {stack moved other : Stack} {t : SourceToken} {p q : Production} {e : Derivation}
  {place : Nat} {input : List SourceToken} {parts : List Derivation}

/-- The derivations of what a production has passed, together with those of what is left of
it, derive its head where the production began. -/
private theorem Sound.finish (sound : Sound stack) (holds : Holds stack.top p place)
    (valid : ∀ d ∈ parts, d.Valid) (left : parts.map Derivation.symbol = p.body.drop place) :
    ∃ d : Derivation, d.Valid ∧ d.symbol = .nonterminal p.head ∧
      tokens (stack.drop place) ++ d.yield = stack.tokens ++ Derivation.yields parts := by
  refine ⟨.phrase p (derivations (stack.take place) ++ parts),
    .phrase (Grammar.mem_productions.mpr holds.mem_productions) ?_ ?_, rfl, ?_⟩
  · rw [List.map_append, (sound.popped holds).1, left, List.take_append_drop]
  · intro d member
    rcases List.mem_append.mp member with passed | later
    · obtain ⟨entry, listed, rfl⟩ := List.mem_map.mp passed
      exact sound.valid (List.mem_of_mem_take (List.mem_reverse.mp listed))
    · exact valid d later
  · have read := tokens_append (stack.take place) (stack.drop place)
    rw [List.take_append_drop] at read
    rw [Derivation.yield, Derivation.yields_eq_flatMap, List.flatMap_append,
      ← Derivation.yields_eq_flatMap, ← Derivation.yields_eq_flatMap, ← tokens, read,
      List.append_assoc]

private theorem exists_derives_of_program {d : Derivation} (valid : d.Valid)
    (program : d.symbol = .nonterminal .program) :
    ∃ e : Derivation, e.Derives .sourceFile d.yield := by
  cases valid with
  | token t => cases program
  | phrase member body valid =>
    obtain rfl := Grammar.eq_whole member (Symbol.nonterminal.inj program)
    obtain ⟨e, rfl, symbol⟩ := List.map_eq_singleton_iff.mp body
    refine ⟨e, valid e List.mem_cons_self, symbol, ?_⟩
    simp [Derivation.yield, Derivation.yields]

/-- Where a production begins, a derivation of its head is the next part of a source file. -/
private theorem Sound.exists_derives_of_begins (sound : Sound stack) (begins : Holds stack.top q 0)
    (valid : e.Valid) (symbol : e.symbol = .nonterminal q.head) :
    ∃ (rest : List SourceToken) (d : Derivation),
      d.Derives .sourceFile (stack.tokens ++ e.yield ++ rest) := by
  induction size : stack.length using Nat.strong_induction_on generalizing stack q e with
  | _ count ih =>
    rcases begins.begun_from_core with ⟨first, starts⟩ | ⟨p, place, n, holds, next, starts⟩
    · obtain rfl := sound.eq_nil_of_top first
      obtain ⟨d, rest, valid, program, yield⟩ := Derivation.exists_around starts valid symbol
      obtain ⟨file, derives⟩ := exists_derives_of_program valid program
      exact ⟨rest, file, by rwa [yield] at derives⟩
    · -- The production in progress is finished, and then what it is a part of.
      obtain ⟨d, rest, valid, same, yield⟩ := Derivation.exists_around starts valid symbol
      obtain ⟨parts, valids, others⟩ := Derivation.exists_parts (p.body.drop (place + 1 + 1))
      have left : (d :: parts).map Derivation.symbol = p.body.drop (place + 1) := by
        obtain ⟨inside, here⟩ := List.getElem?_eq_some_iff.mp next
        rw [List.map_cons, same, others, ← here, List.getElem_cons_drop]
      obtain ⟨whole, valid, head, read⟩ :=
        sound.finish holds (List.forall_mem_cons.mpr ⟨valid, valids⟩) left
      have some : stack ≠ [] := by
        rintro rfl
        exact Nat.succ_ne_zero place holds.place_eq_zero
      have shorter : (stack.drop (place + 1)).length < count := by
        have := List.length_pos_iff.mpr some
        rw [List.length_drop]
        omega
      obtain ⟨more, file, derives⟩ :=
        ih _ shorter (sound.drop _) (sound.popped holds).2 valid head rfl
      rw [read, Derivation.yields, yield] at derives
      exact ⟨rest ++ Derivation.yields parts ++ more, file, by simpa using derives⟩

/-- Whatever has been read can be completed to a source file. -/
theorem Sound.exists_derives (sound : Sound stack) :
    ∃ (rest : List SourceToken) (d : Derivation),
      d.Derives .sourceFile (stack.tokens ++ rest) := by
  obtain ⟨p, place, holds⟩ : ∃ p place, Holds stack.top p place := by
    cases sound with
    | nil => exact ⟨Grammar.whole, 0, holds_program
        (Grammar.mem_productions.mp Grammar.whole_mem_productions)⟩
    | cons _ _ leads =>
      obtain ⟨p, place, awaits, next⟩ := leads.awaited
      exact ⟨p, place + 1, leads.holds awaits next⟩
  obtain ⟨parts, valids, left⟩ := Derivation.exists_parts (p.body.drop place)
  obtain ⟨d, valid, head, read⟩ := sound.finish holds valids left
  obtain ⟨rest, file, derives⟩ :=
    (sound.drop place).exists_derives_of_begins (sound.popped holds).2 valid head
  rw [read, List.append_assoc] at derives
  exact ⟨_, file, derives⟩

theorem Shifts.tokens (shifts : Shifts stack input moved) (sound : Sound stack) :
    moved.tokens = stack.tokens ++ input := by
  induction shifts with
  | nil => rw [List.append_nil]
  | cons feeds _ ih =>
    obtain ⟨next, read⟩ := feeds.right sound
    rw [ih next, read, List.append_assoc, List.singleton_append]

/-- The machine can do nothing with the token. -/
def Refuses (stack : Stack) (t : SourceToken) : Prop := ∀ result, ¬ Feeds stack t result

theorem Refuses.of_kind_eq {u : SourceToken} (refuses : Refuses stack t) (same : u.kind = t.kind) :
    Refuses stack u := by
  intro result feeds
  obtain ⟨also, feeds, _⟩ := feeds.exists_of_states rfl same.symm
  exact refuses also feeds

theorem Shifts.not_derives (shifts : Shifts [] input moved) (refuses : Refuses moved t)
    (rest : List SourceToken) (d : Derivation) : ¬ d.Derives .sourceFile (input ++ t :: rest) := by
  intro derives
  obtain ⟨middle, others, final, more, _⟩ :=
    accepts_append_iff.mp (accepts_nil_iff.mpr ⟨d, derives, rfl⟩)
  obtain rfl := shifts.unique others
  cases more with
  | cons feeds _ => exact refuses _ feeds

theorem Shifts.not_derives_end (shifts : Shifts [] input moved) (refuses : Refuses moved t)
    (last : t.kind = .endOfInput) (d : Derivation) : ¬ d.Derives .sourceFile input := by
  intro derives
  obtain ⟨final, others, ends⟩ := accepts_nil_iff.mpr ⟨d, derives, rfl⟩
  obtain rfl := shifts.unique others
  exact refuses _ (ends t last)

theorem Feeds.not_shifted (feeds : Feeds stack t (.shifted moved)) : t.kind ≠ .endOfInput := by
  intro last
  generalize shifted : Result.shifted moved = result at feeds
  induction feeds with
  | shift leads =>
    obtain ⟨p, place, holds, next⟩ := leads.awaited
    rw [last] at next
    exact Grammar.endOfInput_not_mem_body (Grammar.mem_productions.mpr holds.mem_productions)
      (List.mem_of_getElem? next)
  | accept => cases shifted
  | reduce _ _ _ _ ih => exact ih last shifted

end Stack

end VyperFront
