import VyperFront.Proofs.Lexer.Agree
import VyperFront.Proofs.Machine.Tracks
import VyperFront.Proofs.Reader.Follow

namespace VyperFront

open Stack Layout VyperFront.Graph

/-- What is expected on the stack besides an item is spelled otherwise than the token. -/
def Stack.Admits (stack : Stack) (t : SourceToken) : Prop :=
  ∀ k, TerminalSet.spelled.contains k = true →
    (automaton.state stack.top).expected.contains k = true →
    Follows 0 .fileItems k ∨ k.isKeyword = true ∧ (k, t.text) ∉ Lexer.literals

theorem Stack.Awaits.admits {stack : Stack} (awaits : Awaits stack) (t : SourceToken) :
    stack.Admits t := fun _ spelled expected =>
  .inl (awaits (TerminalSet.contains_spelled.mp spelled).2.2 expected)

namespace Reading

variable {r : Reading} {a b : Stage} {t : SourceToken} {tokens : List SourceToken}
  {stack other : Stack} {k : Terminal} {c after : Lexer.Cursor}

theorem contains_wants_iff (vyper : r.Vyper) :
    (r.wants stack).contains k = true ↔
      match r.mode with
      | .basic => TerminalSet.spelled.contains k = true
      | .contextual =>
        (VyperFront.automaton.state stack.top).expected.contains k = true ∨ k = .newline := by
  rw [wants, wanted, vyper, state_machine]
  cases r.mode with
  | basic => rfl
  | contextual =>
    rw [TerminalSet.contains_union, TerminalSet.contains_singleton, Bool.or_eq_true,
      decide_eq_true_eq, eq_comm (b := k)]

theorem contains_wants_congr (vyper : r.Vyper)
    (same : (VyperFront.automaton.state other.top).expected.contains k = true ↔
      (VyperFront.automaton.state stack.top).expected.contains k = true) :
    (r.wants other).contains k = (r.wants stack).contains k := by
  rw [Bool.eq_iff_iff, contains_wants_iff vyper, contains_wants_iff vyper]
  cases r.mode with
  | basic => rfl
  | contextual => exact or_congr_left same

/-- After some items a reading goes on as at the beginning. -/
theorem simulates_tracks (vyper : r.Vyper) : r.Simulates Tracks where
  wants tracks read := by
    refine Lexer.next_agree read fun k spelled _ => contains_wants_congr vyper ?_
    have inside := (TerminalSet.contains_spelled.mp spelled).2.2
    exact ⟨tracks.symm.contains_expected inside, tracks.contains_expected inside⟩
  shifts tracks shifts inside kinds := tracks.shifts shifts inside kinds

/-- The first token of an item is read after any items that admit it. -/
theorem next_of_admits (vyper : r.Vyper) (rests : Rests stack) (awaits : Awaits stack)
    (also : Rests other) (admits : other.Admits t)
    (read : Lexer.next (r.wants stack) c = .token t after) :
    Lexer.next (r.wants other) c = .token t after := by
  refine Lexer.next_agree read fun k spelled listed => contains_wants_congr vyper ⟨?_, ?_⟩
  · intro expected
    have inside := (TerminalSet.contains_spelled.mp spelled).2.2
    rcases admits k spelled expected with follows | ⟨keyword, apart⟩
    · exact rests.contains_expected follows inside
    · rcases listed with plain | unnamed | spelling
      · rw [plain] at keyword
        cases keyword
      · have name : (r.wants stack).contains .name = true := by
          have expected := rests.contains_expected follows_name (by decide)
          rw [contains_wants_iff vyper]
          cases r.mode with
          | basic => exact TerminalSet.contains_spelled.mpr (by decide)
          | contextual => exact .inl expected
        rw [unnamed] at name
        cases name
      · exact absurd spelling apart
  · intro expected
    have inside := (TerminalSet.contains_spelled.mp spelled).2.2
    exact also.contains_expected (awaits inside expected) inside

/-- Outside of brackets a token that is read is the first that is shifted. -/
theorem Goes.exists_feeds (goes : r.Goes a t b) (outside : a.layout.depth = 0) :
    ∃ rest moved, tokensOf (step r.tabWidth a.layout t).1 = t :: rest ∧
      Feeds a.stack t (.shifted moved) ∧ Shifts moved rest b.stack := by
  have shifts := goes.shifts
  have first : ∃ rest, tokensOf (step r.tabWidth a.layout t).1 = t :: rest := by
    rcases step_cases r.tabWidth a.layout t with ⟨dropped, _⟩ | ⟨_, same⟩ | ⟨_, _, same⟩
    · exact absurd outside dropped.2
    · rw [same]
      exact ⟨_, rfl⟩
    · rw [same]
      exact ⟨_, rfl⟩
  obtain ⟨rest, same⟩ := first
  rw [same] at shifts
  cases shifts with
  | @cons _ _ moved _ _ feeds later => exact ⟨rest, moved, same, feeds, later⟩

theorem Goes.of_admits (vyper : r.Vyper) (goes : r.Goes a t b) (outside : a.layout.depth = 0)
    (rests : Rests a.stack) (awaits : Awaits a.stack) (also : Rests other)
    (admits : other.Admits t) {f : Place → Place} (moves : a.cursor.place.Moves f) :
    ∃ next, r.Goes ⟨a.cursor.move f, a.layout, other⟩ ((Recast.move f).token t)
        ⟨b.cursor.move f, b.layout, next⟩ ∧ Tracks b.stack next ∧ b.cursor.place.Moves f := by
  obtain ⟨read, further⟩ :=
    Lexer.next_move moves (next_of_admits vyper rests awaits also admits goes.read)
  obtain ⟨rest, moved, out, feeds, shifts⟩ := goes.exists_feeds outside
  have follows := awaits goes.kind feeds.expected
  have alike := alike_move r.tabWidth f t
  obtain ⟨state, same⟩ := alike.step (s := a.layout)
  have kinds := same.kinds
  rw [out] at kinds
  cases outs : tokensOf (step r.tabWidth a.layout ((Recast.move f).token t)).1 with
  | nil =>
    rw [outs] at kinds
    cases kinds
  | cons u others =>
    rw [outs] at kinds
    obtain ⟨kind, kinds⟩ := List.cons.inj kinds
    obtain ⟨between, fed, tracks⟩ := rests.feeds also feeds follows goes.kind kind
    have inside : ∀ u ∈ rest, u.kind ≠ .endOfInput := fun u member =>
      inside_step goes.kind u (out ▸ List.mem_cons_of_mem t member)
    obtain ⟨next, more, final⟩ := tracks.shifts shifts inside kinds
    refine ⟨next, ⟨read, same.fails.mpr goes.silent, goes.layout.trans state.symm, ?_⟩, final,
      further⟩
    dsimp only
    rw [outs]
    exact .cons fed more

/-- Items are read the same after any items that admit their first token. -/
theorem Passes.of_admits (vyper : r.Vyper) (passes : r.Passes a tokens b)
    (outside : a.layout.depth = 0) (rests : Rests a.stack) (awaits : Awaits a.stack)
    (also : Rests other) (admits : ∀ t ∈ tokens.head?, other.Admits t)
    {f : Place → Place} (moves : a.cursor.place.Moves f) :
    ∃ next, r.Passes ⟨a.cursor.move f, a.layout, other⟩ (tokens.map (Recast.move f).token)
      ⟨b.cursor.move f, b.layout, next⟩ := by
  cases passes with
  | nil => exact ⟨other, .nil⟩
  | cons goes rest =>
    obtain ⟨between, first, tracks, moves⟩ :=
      goes.of_admits vyper outside rests awaits also (admits _ rfl) moves
    obtain ⟨next, later, _⟩ :=
      rest.follow (simulates_tracks vyper) tracks moves
    exact ⟨next, .cons first later⟩

end Reading

end VyperFront
