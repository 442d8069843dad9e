import VyperFront.Proofs.Automaton.SourceFile
import VyperFront.Proofs.Machine.Feed
import VyperFront.Proofs.Machine.Viable

/-! Where a block is awaited on lines of its own. The machine can go on with an indent exactly if
the last tokens that it has read are the colon of a header and a line break. That is also so if it
has reduced productions before it found out that it has to reject a token. -/

namespace VyperFront

open VyperFront.Graph

namespace Production

/-- How the production places blocks around a symbol of its body. An indent comes after the line
break that begins a block, and a block after a colon. A colon is not at the end, nor before a line
break. -/
def Places (p : Production) (i : Nat) : Prop :=
  match p.body[i]? with
  | some (.terminal .indent) => i = 1 ∧ p.body[0]? = some (.terminal .newline) ∧ p.head = .block
  | some (.nonterminal .block) => 0 < i ∧ p.body[i - 1]? = some (.terminal .colon)
  | some (.terminal .colon) =>
    i + 1 < p.body.length ∧ p.body[i + 1]? ≠ some (.terminal .newline)
  | _ => True

instance (p : Production) (i : Nat) : Decidable (p.Places i) := by
  unfold Places
  split <;> infer_instance

/-- A line break at the beginning begins a block, or is an item of a source file. -/
def Begins (p : Production) : Prop :=
  p.body[0]? = some (.terminal .newline) →
    p.body[1]? = some (.terminal .indent) ∨ p.body.length = 1 ∧ p.head = .fileItems

instance (p : Production) : Decidable p.Begins := inferInstanceAs (Decidable (_ → _))

end Production

namespace Grammar

private theorem places_checked :
    ∀ p ∈ productions, p.Begins ∧ ∀ i ∈ List.range p.body.length, p.Places i := by
  decide +kernel

private theorem followers_checked :
    ∀ n ∈ Nonterminal.all, (followers n).contains .indent = false := by
  decide +kernel

theorem not_followers_indent (n : Nonterminal) : (followers n).contains .indent = false :=
  followers_checked n n.mem_all

end Grammar

namespace Stack

/-- Some productions have been reduced before a terminal, none of them to a program. -/
inductive Settles (k : Terminal) : Stack → Stack → Prop
  | refl : Settles k stack stack
  | reduce (reduces : Reduces stack.top p k)
      (leads : Leads (below p stack).top (.nonterminal p.head) target)
      (rest : Settles k (⟨target, reduced p stack⟩ :: below p stack) final) : Settles k stack final

variable {stack moved rest : Stack} {t u : SourceToken} {k : Terminal} {p : Production} {s : Symbol}
  {number target place i : Nat} {taken : List SourceToken}

private theorem places (holds : Holds number p place) (next : p.body[i]? = some s) : p.Places i :=
  (Grammar.places_checked p (Grammar.mem_productions.mpr holds.mem_productions)).2 i
    (List.mem_range.mpr (List.getElem?_eq_some_iff.mp next).1)

private theorem begins (holds : Holds number p place) : p.Begins :=
  (Grammar.places_checked p (Grammar.mem_productions.mpr holds.mem_productions)).1

private theorem eq_token_of_symbol {d : Derivation} (symbol : d.symbol = .terminal k) :
    ∃ t, d = .token t ∧ t.kind = k := by
  cases d with
  | token t => exact ⟨t, rfl, Symbol.terminal.inj symbol⟩
  | phrase p parts => cases symbol

/-- What a production has passed last is on top of the stack. -/
private theorem Sound.exists_top (sound : Sound stack) (holds : Holds stack.top p (place + 1)) :
    ∃ d below, stack = ⟨stack.top, d⟩ :: below ∧ Sound below ∧ p.body[place]? = some d.symbol ∧
      Holds (top below) p place := by
  cases sound with
  | nil => exact absurd holds.place_eq_zero (Nat.succ_ne_zero place)
  | cons rest valid leads =>
    obtain ⟨next, before⟩ := leads.back holds
    exact ⟨_, _, rfl, rest, next, before⟩

private theorem not_reduces_indent : ¬ Reduces number p .indent := by
  rintro ⟨_, _, _, follows⟩
  cases follows.followers.symm.trans (Grammar.not_followers_indent p.head)

/-- The stack has the colon of a header and a line break on top. -/
def OnHeader (stack : Stack) : Prop :=
  ∃ t u first second below, stack = ⟨first, .token t⟩ :: ⟨second, .token u⟩ :: below ∧
    t.kind = .newline ∧ u.kind = .colon

/-- An indent is awaited only after the colon of a header and a line break. -/
theorem Sound.onHeader (sound : Sound stack) (leads : Leads stack.top (.terminal .indent) target) :
    stack.OnHeader := by
  obtain ⟨p, place, holds, next⟩ := leads.awaited
  have placed := places holds next
  rw [Production.Places, next] at placed
  obtain ⟨rfl, feed, head⟩ := placed
  obtain ⟨d, below, same, sound, here, started⟩ := sound.exists_top holds
  obtain ⟨t, rfl, newline⟩ := eq_token_of_symbol (Option.some.inj (here.symm.trans feed))
  rcases started.begun with ⟨_, program⟩ | ⟨q, place, awaits, block⟩
  · rw [head] at program
    cases program
  · rw [head] at block
    have placed := places awaits block
    rw [Production.Places, block] at placed
    obtain ⟨pos, colon⟩ := placed
    obtain ⟨place, rfl⟩ := Nat.exists_eq_add_one_of_ne_zero (Nat.ne_of_gt pos)
    obtain ⟨e, more, also, _, there, _⟩ := sound.exists_top awaits
    obtain ⟨u, rfl, kind⟩ := eq_token_of_symbol (Option.some.inj (there.symm.trans colon))
    exact ⟨t, u, _, _, more, by rw [same, also], newline, kind⟩

theorem Feeds.onHeader {result : Result} (feeds : Feeds stack t result) (sound : Sound stack)
    (indent : t.kind = .indent) : stack.OnHeader := by
  cases feeds with
  | shift leads =>
    rw [indent] at leads
    exact sound.onHeader leads
  | accept reduces | reduce reduces =>
    rw [indent] at reduces
    exact absurd reduces not_reduces_indent

/-- A line break after a colon begins a block. -/
private theorem begins_block (leads : Leads number (.terminal .colon) target)
    (holds : Holds target p place) (next : p.body[place]? = some (.terminal .newline)) :
    place = 0 ∧ p.body[1]? = some (.terminal .indent) := by
  cases place with
  | succ place =>
    obtain ⟨colon, _⟩ := leads.back holds
    have placed := places holds colon
    rw [Production.Places, colon] at placed
    exact absurd next placed.2
  | zero =>
    refine ⟨rfl, (begins holds next).resolve_right ?_⟩
    rintro ⟨_, head⟩
    have member := holds.mem_productions
    rw [head] at member
    exact leads.target_ne_zero ((holds_fileItems_iff member).mp holds)

/-- A production that is reduced has its last symbol on top of the stack. -/
private theorem Sound.exists_last (sound : Sound stack) (some : stack ≠ [])
    (reduces : Reduces stack.top p k) : ∃ place, p.body.length = place + 1 ∧
      Holds stack.top p (place + 1) := by
  have holds := reduces.holds
  cases length : p.body.length with
  | zero =>
    have empty := List.length_eq_zero_iff.mp length
    rw [length] at holds
    exact absurd (eq_nil_of_empty sound holds empty) some
  | succ place => exact ⟨place, rfl, length ▸ holds⟩

theorem Sound.not_reduces_colon (sound : Sound (⟨target, .token u⟩ :: stack))
    (colon : u.kind = .colon) : ¬ Reduces target p k := by
  intro reduces
  obtain ⟨place, length, holds⟩ := sound.exists_last (List.cons_ne_nil _ _) reduces
  cases sound with
  | cons _ _ leads =>
    obtain ⟨next, _⟩ := leads.back holds
    rw [Derivation.symbol, colon] at next
    have placed := places holds next
    rw [Production.Places, next, length] at placed
    exact Nat.lt_irrefl _ placed.1

namespace OnHeader

/-- After the colon of a header and a line break an indent is awaited. -/
theorem leads (header : stack.OnHeader) (sound : Sound stack) :
    ∃ target, Leads stack.top (.terminal .indent) target := by
  obtain ⟨t, u, first, second, below, rfl, newline, colon⟩ := header
  cases sound with
  | cons rest _ leads =>
    cases rest with
    | cons _ _ before =>
      rw [Derivation.symbol, newline] at leads
      rw [Derivation.symbol, colon] at before
      obtain ⟨p, place, holds, next⟩ := leads.awaited
      obtain ⟨rfl, indent⟩ := begins_block before holds next
      exact (leads.holds holds next).exists_leads indent

theorem not_reduces (header : stack.OnHeader) (sound : Sound stack) : ¬ Reduces stack.top p k := by
  obtain ⟨t, u, first, second, below, rfl, newline, colon⟩ := header
  intro reduces
  obtain ⟨place, length, holds⟩ := sound.exists_last (List.cons_ne_nil _ _) reduces
  cases sound with
  | cons rest _ leads =>
    cases rest with
    | cons _ _ before =>
      rw [Derivation.symbol, colon] at before
      obtain ⟨next, awaits⟩ := leads.back holds
      rw [Derivation.symbol, newline] at next
      obtain ⟨rfl, indent⟩ := begins_block before awaits next
      have inside := (List.getElem?_eq_some_iff.mp indent).1
      omega

end OnHeader

/-- The last tokens are the colon of a header and a line break. -/
def EndsHeader (tokens : List SourceToken) : Prop :=
  ∃ front u t, tokens = front ++ [u, t] ∧ u.kind = .colon ∧ t.kind = .newline

/-- A token that has been shifted is on top of the stack. -/
theorem Feeds.exists_top (feeds : Feeds stack t (.shifted moved)) :
    ∃ target below, moved = ⟨target, .token t⟩ :: below := by
  generalize shifted : Result.shifted moved = result at feeds
  induction feeds with
  | shift => exact ⟨_, _, Result.shifted.inj shifted⟩
  | accept => cases shifted
  | reduce _ _ _ _ ih => exact ih shifted

theorem OnHeader.endsHeader (header : stack.OnHeader) : EndsHeader stack.tokens := by
  obtain ⟨t, u, first, second, below, rfl, newline, colon⟩ := header
  refine ⟨tokens below, u, t, ?_, colon, newline⟩
  rw [tokens_cons, tokens_cons]
  simp [Derivation.yield]

/-- A colon and a line break that have been shifted are on top of the stack. -/
theorem Shifts.onHeader (shifts : Shifts [] taken stack) (ends : EndsHeader taken) :
    stack.OnHeader := by
  obtain ⟨front, u, t, rfl, colon, newline⟩ := ends
  obtain ⟨middle, before, last⟩ := shifts_append_iff.mp shifts
  cases last with
  | cons first last =>
    obtain ⟨second, below, rfl⟩ := first.exists_top
    have sound := (first.right (before.sound .nil)).1
    cases last with
    | cons next done =>
      cases done
      cases next with
      | shift => exact ⟨t, u, _, _, _, rfl, newline, colon⟩
      | reduce reduces => exact absurd reduces (sound.not_reduces_colon colon)

theorem Settles.right (settles : Settles k stack rest) (sound : Sound stack) :
    Sound rest ∧ rest.tokens = stack.tokens := by
  induction settles with
  | refl => exact ⟨sound, rfl⟩
  | reduce reduces leads _ ih =>
    obtain ⟨valid, read⟩ := sound.valid_reduced reduces.holds
    obtain ⟨last, same⟩ := ih (.cons (sound.drop _) valid leads)
    rw [tokens_cons, read] at same
    exact ⟨last, same⟩

/-- A machine that rejects a token has reduced productions before it. -/
private theorem settles_of_rejected_from {steps : Nat} {fragment : Fragment} {m : Machine}
    (rejected : Machine.feedFrom automaton k fragment steps stack.machine = .rejected m) :
    ∃ rest, Settles k stack rest ∧ m = rest.machine := by
  induction steps generalizing stack with
  | zero =>
    cases rejected
    exact ⟨stack, .refl, rfl⟩
  | succ steps ih =>
    cases action : (automaton.state stack.machine.state).action k with
    | shift target =>
      rw [Machine.feedFrom_of_shift action] at rejected
      cases rejected
    | reject =>
      rw [Machine.feedFrom_of_reject action] at rejected
      cases rejected
      exact ⟨stack, .refl, rfl⟩
    | reduce p =>
      have reduces := Automaton.action_eq_reduce_iff.mp action
      rw [state_machine] at reduces
      by_cases program : p.head = .program
      · rw [Machine.feedFrom_of_accept action program] at rejected
        cases rejected
      · cases goto : (automaton.state (Machine.mk (stack.machine.frames.drop
            p.body.length)).state).goto? p.head with
        | none =>
          rw [Machine.feedFrom_of_lost action program goto] at rejected
          cases rejected
          exact ⟨stack, .refl, rfl⟩
        | some target =>
          have leads := Automaton.goto?_eq_some_iff.mp goto
          rw [drop_machine, state_machine] at leads
          rw [Machine.feedFrom_of_reduce action program goto, reduce_machine] at rejected
          obtain ⟨rest, settles, same⟩ := ih rejected
          exact ⟨rest, .reduce reduces leads settles, same⟩

theorem settles_of_rejected {fragment : Fragment} {m : Machine}
    (rejected : stack.machine.feed automaton k fragment = .rejected m) :
    ∃ rest, Settles k stack rest ∧ m = rest.machine :=
  settles_of_rejected_from rejected

theorem Sound.indent_mem_expected_iff (sound : Sound stack) :
    .indent ∈ stack.machine.expected automaton ↔ stack.OnHeader := by
  have first : (automaton.state stack.machine.state).expected.contains .indent = true ↔
      ∃ target, Leads stack.top (.terminal .indent) target := by
    rw [state_machine, Automaton.contains_expected, or_iff_left]
    exact fun ⟨_, reduces⟩ => not_reduces_indent reduces
  rw [Machine.expected, List.mem_filter, TerminalSet.toList, List.mem_filter, first]
  constructor
  · rintro ⟨⟨_, target, leads⟩, _⟩
    exact sound.onHeader leads
  · intro header
    obtain ⟨target, leads⟩ := header.leads sound
    refine ⟨⟨Terminal.mem_all _, target, leads⟩, ?_⟩
    rw [← state_machine, ← Automaton.action_eq_shift_iff] at leads
    obtain ⟨steps, enough⟩ :=
      Nat.exists_eq_add_one_of_ne_zero (Nat.ne_zero_of_lt stack.potential_lt_budget)
    rw [Machine.accepts, Machine.feed, enough, Machine.feedFrom_of_shift leads]

/-- If the machine has to reject a token, it awaits a block exactly after the colon of a header and
a line break. -/
theorem Shifts.indent_mem_expected_iff (shifts : Shifts [] taken moved)
    (settles : Settles k moved rest) :
    .indent ∈ rest.machine.expected automaton ↔ EndsHeader taken := by
  have sound := shifts.sound .nil
  have read : moved.tokens = taken := shifts.tokens .nil
  obtain ⟨settled, same⟩ := settles.right sound
  rw [settled.indent_mem_expected_iff]
  constructor
  · intro header
    rw [← read, ← same]
    exact header.endsHeader
  · intro ends
    have header := shifts.onHeader ends
    cases settles with
    | refl => exact header
    | reduce reduces => exact absurd reduces (header.not_reduces sound)

end Stack

end VyperFront
