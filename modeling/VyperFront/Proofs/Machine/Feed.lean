import VyperFront.Proofs.Machine.Stack

/-! The machine does what its stack of derivations says. Its steps are enough: reducing
a production makes the stack smaller, or renames the phrase on top of it. -/

namespace VyperFront

open VyperFront.Graph

namespace Machine

variable {a : Automaton} {m : Machine} {t : Terminal} {fragment : Fragment} {p : Production}
  {steps target : Nat}

theorem feedFrom_of_shift (action : (a.state m.state).action t = .shift target) :
    feedFrom a t fragment (steps + 1) m = .shifted ⟨⟨target, fragment⟩ :: m.frames⟩ := by
  rw [feedFrom, action]

/-- The machine with a production reduced to a fragment on top. -/
def reduce (m : Machine) (p : Production) (target : Nat) : Machine :=
  ⟨⟨target, Fragment.reduce p ((m.frames.take p.body.length).reverse.map (·.fragment))⟩ ::
    m.frames.drop p.body.length⟩

theorem feedFrom_of_accept (action : (a.state m.state).action t = .reduce p)
    (program : p.head = .program) :
    feedFrom a t fragment (steps + 1) m =
      .accepted (Fragment.reduce p ((m.frames.take p.body.length).reverse.map (·.fragment))) := by
  rw [feedFrom, action]
  exact if_pos program

theorem feedFrom_of_reduce (action : (a.state m.state).action t = .reduce p)
    (other : p.head ≠ .program)
    (leads : (a.state (Machine.mk (m.frames.drop p.body.length)).state).goto? p.head =
      some target) :
    feedFrom a t fragment (steps + 1) m = feedFrom a t fragment steps (m.reduce p target) := by
  rw [feedFrom, action]
  simp only [if_neg other, leads]
  rfl

theorem feedFrom_of_reject (action : (a.state m.state).action t = .reject) :
    feedFrom a t fragment (steps + 1) m = .rejected m := by
  rw [feedFrom, action]

theorem feedFrom_of_lost (action : (a.state m.state).action t = .reduce p)
    (other : p.head ≠ .program)
    (lost : (a.state (Machine.mk (m.frames.drop p.body.length)).state).goto? p.head = none) :
    feedFrom a t fragment (steps + 1) m = .rejected m := by
  rw [feedFrom, action]
  simp only [if_neg other, lost]

end Machine

namespace Stack

variable {stack moved : Stack} {t : SourceToken} {p : Production} {d : Derivation}
  {result : Result} {target : Nat}

/-- The machine with the stack. -/
def machine (stack : Stack) : Machine :=
  ⟨stack.map fun entry => ⟨entry.state, entry.derivation.fragment⟩⟩

/-- What becomes of the machine. -/
def Result.outcome : Result → Machine.Outcome
  | .shifted stack => .shifted stack.machine
  | .accepted d => .accepted d.fragment

theorem state_machine (stack : Stack) : stack.machine.state = stack.top := by
  cases stack <;> rfl

theorem drop_machine (count : Nat) (stack : Stack) :
    Machine.mk (stack.machine.frames.drop count) = machine (stack.drop count) := by
  simp [machine]

theorem fragment_reduced (p : Production) (stack : Stack) :
    (reduced p stack).fragment =
      Fragment.reduce p ((stack.machine.frames.take p.body.length).reverse.map (·.fragment)) := by
  rw [reduced, Derivation.fragment_phrase]
  simp [machine, derivations, ← List.map_take, ← List.map_reverse, Function.comp_def]

theorem reduce_machine (p : Production) (stack : Stack) (target : Nat) :
    stack.machine.reduce p target = machine (⟨target, reduced p stack⟩ :: below p stack) := by
  rw [Machine.reduce, ← fragment_reduced]
  simp [machine]

/-- An upper bound for how many productions can be reduced before the next token. -/
def potential : Stack → Nat
  | [] => 2 * Nonterminal.all.length + 1
  | entry :: rest =>
    (rest.length + 1) * (Nonterminal.all.length + 1) + entry.derivation.symbol.rank

theorem potential_lt_budget (stack : Stack) : stack.potential < stack.machine.budget := by
  cases stack with
  | nil => decide
  | cons entry rest =>
    have := entry.derivation.symbol.rank_le
    simp only [potential, Machine.budget, machine, List.length_map, List.length_cons]
    rw [Nat.add_mul (rest.length + 1) 2]
    omega

/-- Only at the start can an empty source file be put on the stack. -/
theorem eq_nil_of_empty (sound : Sound stack) (begins : Holds stack.top p 0)
    (empty : p.body = []) : stack = [] := by
  have member := Grammar.mem_productions.mpr begins.mem_productions
  have head := Grammar.head_eq_sourceFile_of_body_eq_nil member empty
  rcases begins.begun with ⟨first, _⟩ | ⟨q, place, awaits, next⟩
  · exact sound.eq_nil_of_top first
  · rw [head] at next
    obtain rfl := Grammar.eq_whole_of_sourceFile_mem_body
      (Grammar.mem_productions.mpr awaits.mem_productions) (List.mem_of_getElem? next)
    obtain rfl : place = 0 := Nat.lt_one_iff.mp (List.getElem?_eq_some_iff.mp next).1
    exact sound.eq_nil_of_top (top_eq_zero_of_program awaits rfl)

/-- Reducing a production lowers the potential. -/
theorem potential_reduced_lt (sound : Sound stack) (holds : Holds stack.top p p.body.length) :
    potential (⟨target, reduced p stack⟩ :: below p stack) < stack.potential := by
  have member := Grammar.mem_productions.mpr holds.mem_productions
  have head := (Symbol.nonterminal p.head).rank_le
  obtain ⟨symbols, begins⟩ := sound.popped holds
  have full := congrArg List.length symbols
  simp only [derivations, List.length_map, List.length_reverse, List.length_take,
    Nat.min_self] at full
  rw [potential, reduced, Derivation.symbol, below, List.length_drop]
  cases body : p.body with
  | nil =>
    rw [body] at begins
    obtain rfl := eq_nil_of_empty sound begins body
    rw [Grammar.head_eq_sourceFile_of_body_eq_nil member body]
    decide
  | cons s others =>
    cases stack with
    | nil => simp [body] at full
    | cons entry rest =>
      cases others with
      | nil =>
        have lower := Grammar.rank_lt_of_body_eq_singleton member body
        have top : entry.derivation.symbol = s := by simpa [body, derivations] using symbols
        rw [potential, top, List.length_cons, List.length_singleton, Nat.add_sub_cancel]
        omega
      | cons second more =>
        rw [body] at full
        simp only [potential, List.length_cons] at full ⊢
        have fewer : rest.length + 1 - (more.length + 1 + 1) + 1 ≤ rest.length := by omega
        have := Nat.mul_le_mul_right (Nonterminal.all.length + 1) fewer
        rw [Nat.add_mul rest.length 1]
        omega

/-- With enough steps the machine comes to what its stack does. -/
private theorem feedFrom_of_feeds {steps : Nat} (feeds : Feeds stack t result)
    (sound : Sound stack) (enough : stack.potential < steps) :
    Machine.feedFrom automaton t.kind (.ofToken t) steps stack.machine = result.outcome := by
  induction feeds generalizing steps with
  | shift leads =>
    obtain ⟨steps, rfl⟩ := Nat.exists_eq_add_one_of_ne_zero (Nat.ne_zero_of_lt enough)
    rw [← Automaton.action_eq_shift_iff, ← state_machine] at leads
    exact Machine.feedFrom_of_shift leads
  | accept reduces program =>
    obtain ⟨steps, rfl⟩ := Nat.exists_eq_add_one_of_ne_zero (Nat.ne_zero_of_lt enough)
    rw [← Automaton.action_eq_reduce_iff, ← state_machine] at reduces
    rw [Machine.feedFrom_of_accept reduces program, ← fragment_reduced, Result.outcome]
  | reduce reduces other leads rest ih =>
    obtain ⟨steps, rfl⟩ := Nat.exists_eq_add_one_of_ne_zero (Nat.ne_zero_of_lt enough)
    have holds := reduces.holds
    have next := Sound.cons (sound.drop _) (sound.valid_reduced holds).1 leads
    rw [← Automaton.action_eq_reduce_iff, ← state_machine] at reduces
    rw [← Automaton.goto?_eq_some_iff, ← state_machine, ← drop_machine] at leads
    rw [Machine.feedFrom_of_reduce reduces other leads, reduce_machine]
    exact ih next (Nat.lt_of_lt_of_le (potential_reduced_lt sound holds) (Nat.le_of_lt_succ enough))

/-- Whatever the machine comes to unless it rejects the token, its stack does. -/
private theorem rejected_or_feeds_from (steps : Nat) (stack : Stack) :
    (∃ m, Machine.feedFrom automaton t.kind (.ofToken t) steps stack.machine = .rejected m) ∨
      ∃ result, Feeds stack t result ∧
        Machine.feedFrom automaton t.kind (.ofToken t) steps stack.machine = result.outcome := by
  induction steps generalizing stack with
  | zero => exact .inl ⟨_, rfl⟩
  | succ steps ih =>
    cases action : (automaton.state stack.machine.state).action t.kind with
    | shift target =>
      have leads := Automaton.action_eq_shift_iff.mp action
      rw [state_machine] at leads
      exact .inr ⟨_, .shift leads, Machine.feedFrom_of_shift action⟩
    | reject => exact .inl ⟨_, Machine.feedFrom_of_reject action⟩
    | reduce p =>
      have reduces := Automaton.action_eq_reduce_iff.mp action
      rw [state_machine] at reduces
      by_cases program : p.head = .program
      · refine .inr ⟨_, .accept reduces program, ?_⟩
        rw [Machine.feedFrom_of_accept action program, ← fragment_reduced, Result.outcome]
      · cases goto : (automaton.state (Machine.mk (stack.machine.frames.drop
            p.body.length)).state).goto? p.head with
        | none => exact .inl ⟨_, Machine.feedFrom_of_lost action program goto⟩
        | some target =>
          have leads := Automaton.goto?_eq_some_iff.mp goto
          rw [drop_machine, state_machine] at leads
          rw [Machine.feedFrom_of_reduce action program goto, reduce_machine]
          refine (ih _).imp_right ?_
          rintro ⟨result, feeds, same⟩
          exact ⟨result, .reduce reduces program leads feeds, same⟩

theorem feed_of_feeds (feeds : Feeds stack t result) (sound : Sound stack) :
    stack.machine.feed automaton t.kind (.ofToken t) = result.outcome :=
  feedFrom_of_feeds feeds sound stack.potential_lt_budget

theorem rejected_or_feeds (stack : Stack) (t : SourceToken) :
    (∃ m, stack.machine.feed automaton t.kind (.ofToken t) = .rejected m) ∨
      ∃ result, Feeds stack t result ∧
        stack.machine.feed automaton t.kind (.ofToken t) = result.outcome :=
  rejected_or_feeds_from stack.machine.budget stack

end Stack

end VyperFront
