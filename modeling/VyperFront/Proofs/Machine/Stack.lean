import VyperFront.Machine
import VyperFront.Proofs.Automaton.Action
import VyperFront.Proofs.Grammar.Derivation
import VyperFront.Proofs.Grammar.Program

/-! The machine in terms of derivations. Its stack is read as the derivations that led
from state to state; reading a token ends productions on top of the stack and then puts
the token there. What the stack holds always derives the tokens that were read. -/

namespace VyperFront

open VyperFront.Graph

/-- A state with the derivation that led to it. -/
structure Stack.Entry where
  state : Nat
  derivation : Derivation

/-- The stack of the machine, innermost entry first. -/
abbrev Stack := List Stack.Entry

namespace Stack

/-- The state on top. Below all entries is state 0. -/
def top : Stack → Nat
  | [] => 0
  | entry :: _ => entry.state

/-- The derivations on the stack, in the order of the tokens. -/
def derivations (stack : Stack) : List Derivation :=
  stack.reverse.map Entry.derivation

/-- The tokens that have been read. -/
def tokens (stack : Stack) : List SourceToken :=
  Derivation.yields stack.derivations

/-- The derivation by a production of what is on top of the stack. -/
def reduced (p : Production) (stack : Stack) : Derivation :=
  .phrase p (derivations (stack.take p.body.length))

/-- The stack without what the production reduces. -/
abbrev below (p : Production) (stack : Stack) : Stack :=
  stack.drop p.body.length

/-- What the machine with the stack comes to when it reads a token. -/
inductive Result where
  | shifted (stack : Stack)
  | accepted (derivation : Derivation)

/-- How a token is read: productions that end before it are reduced, then it is
shifted, or the program is accepted. -/
inductive Feeds : Stack → SourceToken → Result → Prop where
  | shift (leads : Leads stack.top (.terminal t.kind) target) :
    Feeds stack t (.shifted (⟨target, .token t⟩ :: stack))
  | accept (reduces : Reduces stack.top p t.kind) (program : p.head = .program) :
    Feeds stack t (.accepted (reduced p stack))
  | reduce (reduces : Reduces stack.top p t.kind) (other : p.head ≠ .program)
    (leads : Leads (below p stack).top (.nonterminal p.head) target)
    (rest : Feeds (⟨target, reduced p stack⟩ :: below p stack) t result) :
    Feeds stack t result

/-- The tokens are read one after the other, until the last is accepted. -/
inductive Reads : Stack → List SourceToken → Derivation → Prop where
  | done (feeds : Feeds stack t (.accepted d)) : Reads stack [t] d
  | next (feeds : Feeds stack t (.shifted moved)) (rest : Reads moved input d) :
    Reads stack (t :: input) d

/-- The tokens are read one after the other, and none is accepted. -/
inductive Shifts : Stack → List SourceToken → Stack → Prop where
  | nil : Shifts stack [] stack
  | cons (feeds : Feeds stack t (.shifted moved)) (rest : Shifts moved input final) :
    Shifts stack (t :: input) final

/-- The stack is made of valid derivations, each of which leads from state to state. -/
inductive Sound : Stack → Prop where
  | nil : Sound []
  | cons (rest : Sound stack) (valid : d.Valid) (leads : Leads (top stack) d.symbol target) :
    Sound (⟨target, d⟩ :: stack)

variable {stack moved : Stack} {t : SourceToken} {p q : Production} {d e : Derivation}
  {result other : Result} {number target place : Nat} {input : List SourceToken}

theorem tokens_cons (entry : Entry) (stack : Stack) :
    tokens (entry :: stack) = tokens stack ++ entry.derivation.yield := by
  simp [tokens, derivations, Derivation.yields_eq_flatMap]

theorem tokens_append (upper stack : Stack) :
    tokens (upper ++ stack) = tokens stack ++ tokens upper := by
  simp [tokens, derivations, Derivation.yields_eq_flatMap]

theorem not_awaits_program (holds : Holds number p place) :
    p.body[place]? ≠ some (.nonterminal .program) := fun next =>
  Grammar.program_not_mem_body (Grammar.mem_productions.mpr holds.mem_productions)
    (List.mem_of_getElem? next)

theorem top_eq_zero_of_program (holds : Holds number p 0) (program : p.head = .program) :
    number = 0 := by
  rcases holds.begun with ⟨first, _⟩ | ⟨_, _, awaits, next⟩
  · exact first
  · rw [program] at next
    exact absurd next (not_awaits_program awaits)

theorem follows_program {u : Terminal} (follows : Follows number .program u) :
    u = .endOfInput := by
  have apart {origin p after} (stands : Stands origin p number .program after) : False := by
    obtain ⟨place, awaits, next, _⟩ := stands.holds
    refine not_awaits_program awaits ?_
    rw [← List.head?_drop, next]
    rfl
  generalize program : Nonterminal.program = n at follows
  cases follows with
  | program => rfl
  | within stands _ => exact (apart (program ▸ stands)).elim
  | ending stands _ _ => exact (apart (program ▸ stands)).elim

namespace Sound

theorem eq_nil_of_top (sound : Sound stack) (first : stack.top = 0) : stack = [] := by
  cases sound with
  | nil => rfl
  | cons _ _ leads => exact absurd first leads.target_ne_zero

theorem drop (sound : Sound stack) (count : Nat) : Sound (stack.drop count) := by
  induction sound generalizing count with
  | nil =>
    rw [List.drop_nil]
    exact .nil
  | cons rest valid leads ih =>
    cases count with
    | zero => exact .cons rest valid leads
    | succ count => exact ih count

theorem valid (sound : Sound stack) {entry : Entry} (member : entry ∈ stack) :
    entry.derivation.Valid := by
  induction sound with
  | nil => cases member
  | cons _ valid _ ih =>
    rcases List.mem_cons.mp member with rfl | later
    · exact valid
    · exact ih later

/-- What a production has passed is on top of the stack. -/
theorem popped (sound : Sound stack) (holds : Holds stack.top p place) :
    (derivations (stack.take place)).map Derivation.symbol = p.body.take place ∧
      Holds (top (stack.drop place)) p 0 := by
  induction place generalizing stack with
  | zero => exact ⟨by simp [derivations], holds⟩
  | succ place ih =>
    cases sound with
    | nil => exact absurd holds.place_eq_zero (Nat.succ_ne_zero place)
    | cons rest valid leads =>
      obtain ⟨next, before⟩ := leads.back holds
      obtain ⟨symbols, begins⟩ := ih rest before
      refine ⟨?_, begins⟩
      have more := List.take_add_one (l := p.body) (i := place)
      rw [next, ← symbols] at more
      rw [more]
      simp [derivations]

/-- Reducing a production leaves the stack sound, and the same tokens read. -/
theorem valid_reduced (sound : Sound stack) (holds : Holds stack.top p p.body.length) :
    (Stack.reduced p stack).Valid ∧
      tokens (Stack.below p stack) ++ (Stack.reduced p stack).yield = tokens stack := by
  constructor
  · refine .phrase (Grammar.mem_productions.mpr holds.mem_productions) ?_ ?_
    · rw [(sound.popped holds).1, List.take_length]
    · intro d member
      obtain ⟨entry, listed, rfl⟩ := List.mem_map.mp member
      exact sound.valid (List.mem_of_mem_take (List.mem_reverse.mp listed))
  · rw [Stack.reduced, Derivation.yield, ← tokens, ← tokens_append, List.take_append_drop]

end Sound

/-- What reading a token may come to when the tokens before it have been read. -/
def Result.Right (before : List SourceToken) (t : SourceToken) : Result → Prop
  | .shifted moved => Sound moved ∧ moved.tokens = before ++ [t]
  | .accepted d => t.kind = .endOfInput ∧
    ∃ e, d = .phrase Grammar.whole [e] ∧ e.Derives .sourceFile before

private theorem right_accepted (sound : Sound stack) (reduces : Reduces stack.top p t.kind)
    (program : p.head = .program) : (Result.accepted (reduced p stack)).Right stack.tokens t := by
  have holds := reduces.holds
  obtain rfl := Grammar.eq_whole (Grammar.mem_productions.mpr holds.mem_productions) program
  obtain ⟨symbols, begins⟩ := sound.popped holds
  obtain ⟨valid, read⟩ := sound.valid_reduced holds
  have bottom := (sound.drop _).eq_nil_of_top (top_eq_zero_of_program begins program)
  obtain ⟨_, _, _, follows⟩ := reduces
  obtain ⟨e, single, symbol⟩ := List.map_eq_singleton_iff.mp symbols
  rw [reduced, single] at valid read
  refine ⟨follows_program follows, e, by rw [reduced, single], ?_⟩
  cases valid with
  | phrase _ _ parts =>
    refine ⟨parts e List.mem_cons_self, symbol, ?_⟩
    rw [below, bottom] at read
    simpa [tokens, derivations, Derivation.yield, Derivation.yields] using read

theorem Feeds.right (feeds : Feeds stack t result) (sound : Sound stack) :
    result.Right stack.tokens t := by
  induction feeds with
  | shift leads => exact ⟨.cons sound (.token _) leads, by rw [tokens_cons]; rfl⟩
  | accept reduces program => exact right_accepted sound reduces program
  | reduce reduces other leads rest ih =>
    obtain ⟨valid, read⟩ := sound.valid_reduced reduces.holds
    have right := ih (.cons (sound.drop _) valid leads)
    rwa [tokens_cons, read] at right

theorem Feeds.unique (feeds : Feeds stack t result) (also : Feeds stack t other) :
    result = other := by
  induction feeds with
  | shift leads =>
    cases also with
    | shift others => rw [leads.unique others]
    | accept reduces => exact absurd leads reduces.not_leads
    | reduce reduces => exact absurd leads reduces.not_leads
  | accept reduces program =>
    cases also with
    | shift leads => exact absurd leads reduces.not_leads
    | accept others => rw [reduces.holds.complete_unique others.holds]
    | reduce others another =>
      exact absurd (reduces.holds.complete_unique others.holds ▸ program) another
  | reduce reduces another leads rest ih =>
    cases also with
    | shift leads => exact absurd leads reduces.not_leads
    | accept others program =>
      exact absurd (reduces.holds.complete_unique others.holds ▸ program) another
    | reduce others _ leading more =>
      obtain rfl := reduces.holds.complete_unique others.holds
      obtain rfl := leads.unique leading
      exact ih more

theorem Reads.unique (reads : Reads stack input d) (also : Reads stack input e) : d = e := by
  induction reads with
  | done feeds =>
    cases also with
    | done others => exact Result.accepted.inj (feeds.unique others)
    | next others _ => cases feeds.unique others
  | next feeds rest ih =>
    cases also with
    | done others => cases feeds.unique others
    | next others more =>
      cases feeds.unique others
      exact ih more

theorem Reads.derives (reads : Reads stack input d) (sound : Sound stack) :
    ∃ body last e, input = body ++ [last] ∧ last.kind = .endOfInput ∧
      d = .phrase Grammar.whole [e] ∧ e.Derives .sourceFile (stack.tokens ++ body) := by
  induction reads with
  | done feeds =>
    obtain ⟨last, e, same, derives⟩ := feeds.right sound
    exact ⟨[], _, e, rfl, last, same, by rwa [List.append_nil]⟩
  | next feeds _ ih =>
    obtain ⟨moved, read⟩ := feeds.right sound
    obtain ⟨body, last, e, rfl, kind, same, derives⟩ := ih moved
    rw [read, List.append_assoc] at derives
    exact ⟨_ :: body, last, e, rfl, kind, same, derives⟩

theorem Shifts.sound (shifts : Shifts stack input moved) (sound : Sound stack) :
    Sound moved := by
  induction shifts with
  | nil => exact sound
  | cons feeds _ ih => exact ih (feeds.right sound).1

theorem Shifts.unique {final : Stack} (shifts : Shifts stack input moved)
    (also : Shifts stack input final) : moved = final := by
  induction shifts with
  | nil =>
    cases also
    rfl
  | cons feeds _ ih =>
    cases also with
    | cons others rest =>
      cases feeds.unique others
      exact ih rest

theorem shifts_append_iff {more : List SourceToken} :
    Shifts stack (input ++ more) moved ↔
      ∃ middle, Shifts stack input middle ∧ Shifts middle more moved := by
  constructor
  · intro shifts
    induction input generalizing stack with
    | nil => exact ⟨stack, .nil, shifts⟩
    | cons t rest ih =>
      cases shifts with
      | cons feeds later =>
        obtain ⟨middle, first, second⟩ := ih later
        exact ⟨middle, .cons feeds first, second⟩
  · rintro ⟨middle, first, second⟩
    induction first with
    | nil => exact second
    | cons feeds _ ih => exact .cons feeds (ih second)

theorem reads_append_iff {more : List SourceToken} :
    Reads stack (input ++ t :: more) d ↔
      ∃ moved, Shifts stack input moved ∧ Reads moved (t :: more) d := by
  constructor
  · intro reads
    induction input generalizing stack with
    | nil => exact ⟨stack, .nil, reads⟩
    | cons u rest ih =>
      generalize whole : u :: rest ++ t :: more = tokens at reads
      cases reads with
      | done feeds => simp at whole
      | next feeds later =>
        obtain ⟨rfl, rfl⟩ := List.cons.inj whole
        obtain ⟨moved, shifts, reads⟩ := ih later
        exact ⟨moved, .cons feeds shifts, reads⟩
  · rintro ⟨moved, shifts, reads⟩
    induction shifts with
    | nil => exact reads
    | cons feeds _ ih => exact .next feeds (ih reads)

/-- Of the last token only the kind counts. -/
theorem Feeds.accepted_of_kind_eq {u : SourceToken} (feeds : Feeds stack t (.accepted d))
    (same : u.kind = t.kind) : Feeds stack u (.accepted d) := by
  generalize accepted : Result.accepted d = result at feeds
  induction feeds with
  | shift => cases accepted
  | accept reduces program =>
    cases accepted
    exact .accept (same ▸ reduces) program
  | reduce reduces other leads _ ih => exact .reduce (same ▸ reduces) other leads (ih same accepted)

/-- The tokens are all of the input, and they are accepted. -/
def Accepts (stack : Stack) (input : List SourceToken) (d : Derivation) : Prop :=
  ∃ final, Shifts stack input final ∧
    ∀ t : SourceToken, t.kind = .endOfInput → Feeds final t (.accepted d)

theorem accepts_append_iff {more : List SourceToken} :
    Accepts stack (input ++ more) d ↔
      ∃ middle, Shifts stack input middle ∧ Accepts middle more d := by
  constructor
  · rintro ⟨final, shifts, ends⟩
    obtain ⟨middle, first, second⟩ := shifts_append_iff.mp shifts
    exact ⟨middle, first, final, second, ends⟩
  · rintro ⟨middle, first, final, second, ends⟩
    exact ⟨final, shifts_append_iff.mpr ⟨middle, first, second⟩, ends⟩

theorem accepts_iff (last : t.kind = .endOfInput) :
    Accepts stack input d ↔ Reads stack (input ++ [t]) d := by
  rw [reads_append_iff]
  refine exists_congr fun final => and_congr_right fun _ => ?_
  constructor
  · exact fun feeds => .done (feeds t last)
  · intro reads u also
    cases reads with
    | done feeds => exact feeds.accepted_of_kind_eq (also.trans last.symm)
    | next _ rest => cases rest

end Stack

end VyperFront
