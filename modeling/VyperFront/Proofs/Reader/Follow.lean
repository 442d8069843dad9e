import VyperFront.Proofs.Grammar.Recast
import VyperFront.Proofs.Layout.Alike
import VyperFront.Proofs.Lexer.Local
import VyperFront.Proofs.Reader.Stage

/-! Readings that follow others. Up to a line feed a text is read the same whatever comes
after it. What comes after a run of line breaks is read the same whatever is before it, as
long as the stacks ask the lexer for the same and shift the same. -/

namespace VyperFront

open Stack Layout Lexeme

theorem Layout.alike_move (w : TabWidth) (f : Place → Place) (t : SourceToken) :
    Alike w t ((Recast.move f).token t) := ⟨rfl, rfl, Iff.rfl⟩

namespace Reading

variable {r : Reading} {a b : Stage} {t u : SourceToken} {tokens : List SourceToken}

/-- Stacks that ask for the same and shift the same. -/
structure Simulates (r : Reading) (related : Stack → Stack → Prop) : Prop where
  wants {stack other : Stack} {t : SourceToken} {c after : Lexer.Cursor}
    (here : related stack other) (read : Lexer.next (r.wants stack) c = .token t after) :
    Lexer.next (r.wants other) c = .token t after
  shifts {stack other moved : Stack} {input others : List SourceToken}
    (here : related stack other) (shifts : Shifts stack input moved)
    (inside : ∀ t ∈ input, t.kind ≠ .endOfInput)
    (kinds : others.map Token.kind = input.map Token.kind) :
    ∃ also, Shifts other others also ∧ related moved also

theorem wants_eq_of_top {stack other : Stack} (same : other.top = stack.top) :
    r.wants other = r.wants stack := by
  unfold Reading.wants Reading.wanted
  rw [state_machine, state_machine, same]

/-- Only the states on a stack count. -/
theorem simulates_states (r : Reading) :
    r.Simulates fun stack other => other.states = stack.states where
  wants same read := by rw [wants_eq_of_top (top_eq_of_states same), read]
  shifts same shifts _ kinds := shifts.exists_of_states same kinds

variable {related : Stack → Stack → Prop} {other : Stack}

theorem Goes.follow (simulates : r.Simulates related) (goes : r.Goes a t b)
    (here : related a.stack other) (alike : Alike r.tabWidth t u) {c d : Lexer.Cursor}
    (read : Lexer.next (r.wants other) c = .token u d) :
    ∃ also, r.Goes ⟨c, a.layout, other⟩ u ⟨d, b.layout, also⟩ ∧ related b.stack also := by
  obtain ⟨state, same⟩ := alike.step (s := a.layout)
  obtain ⟨also, shifts, there⟩ :=
    simulates.shifts here goes.shifts (inside_step goes.kind) same.kinds
  exact ⟨also, ⟨read, same.fails.mpr goes.silent, goes.layout.trans state.symm, shifts⟩, there⟩

/-- What is read is read at other places, too. -/
theorem Passes.follow (simulates : r.Simulates related) (passes : r.Passes a tokens b)
    (here : related a.stack other) {f : Place → Place} (moves : a.cursor.place.Moves f) :
    ∃ also, r.Passes ⟨a.cursor.move f, a.layout, other⟩ (tokens.map (Recast.move f).token)
        ⟨b.cursor.move f, b.layout, also⟩ ∧ related b.stack also := by
  induction passes generalizing other with
  | nil => exact ⟨other, .nil, here⟩
  | cons goes _ ih =>
    obtain ⟨read, moves⟩ := Lexer.next_move moves (simulates.wants here goes.read)
    obtain ⟨next, first, there⟩ := goes.follow simulates here (alike_move ..) read
    obtain ⟨also, rest, final⟩ := ih there moves
    exact ⟨also, .cons first rest, final⟩

theorem Passes.start_le (passes : r.Passes a tokens b) :
    ∀ t ∈ tokens, a.cursor.place.offset ≤ t.place.start.offset := by
  induction passes with
  | nil => exact nofun
  | @cons a t next _ _ goes _ ih =>
    obtain ⟨_, _, skips, _, place, stop⟩ := Lexer.next_eq_token_iff.mp goes.read
    have first : a.cursor.place.offset ≤ t.place.start.offset := by
      rw [place, Place.offset_advance]
      exact Nat.le_add_right ..
    have further : a.cursor.place.offset ≤ next.cursor.place.offset := by
      rw [stop, Place.offset_advance]
      exact Nat.le_add_right ..
    exact List.forall_mem_cons.mpr ⟨first, fun u member => further.trans (ih u member)⟩

end Reading

namespace Stage

/-- The same stage before another text. -/
def before (a : Stage) (text : Text) : Stage := ⟨⟨text, a.cursor.place⟩, a.layout, a.stack⟩

theorem Finished.goesOn {a : Stage} (finished : a.Finished) :
    ∃ wanted, ∀ cursor, Lexer.next wanted a.cursor ≠ .stuck cursor := by
  refine ⟨.spelled, fun cursor stuck => ?_⟩
  rw [finished] at stuck
  cases stuck

theorem Finished.move {a : Stage} (finished : a.Finished) (f : Place → Place)
    (layout : Layout.State) (stack : Stack) : Finished ⟨a.cursor.move f, layout, stack⟩ :=
  Lexer.next_finished_of_finished finished _

end Stage

namespace Reading

variable {r : Reading} {a b : Stage} {t : SourceToken} {tokens : List SourceToken} {u v : Text}

theorem contains_wants_newline (r : Reading) (stack : Stack) :
    (r.wants stack).contains .newline = true := by
  unfold wants wanted
  cases r.mode with
  | basic => exact TerminalSet.contains_spelled.mpr (by decide)
  | contextual => simp [TerminalSet.contains_union, TerminalSet.contains_singleton]

/-- The lexer is not stuck where it reads a token, or where it is not stuck later. -/
theorem Passes.goesOn (passes : r.Passes a tokens b)
    (onward : ∃ wanted, ∀ cursor, Lexer.next wanted b.cursor ≠ .stuck cursor) :
    ∃ wanted, ∀ cursor, Lexer.next wanted a.cursor ≠ .stuck cursor := by
  cases passes with
  | nil => exact onward
  | cons goes _ =>
    refine ⟨r.wants a.stack, fun cursor stuck => ?_⟩
    rw [goes.read] at stuck
    cases stuck

/-- The text up to a line feed within a run of line breaks is read the same, up to that run,
whatever comes after the line feed. -/
theorem Passes.split_over (passes : r.Passes a tokens b) (finished : b.Finished)
    (here : a.cursor.rest = u ++ '\n' :: v) (member : t ∈ tokens)
    (start : t.place.start.offset ≤ a.cursor.place.offset + u.length)
    (past : a.cursor.place.offset + u.length < t.place.stop.offset) :
    ∃ front back w m, tokens = front ++ t :: back ∧ m.cursor.rest = w ++ '\n' :: v ∧
      m.cursor.place.offset + w.length = a.cursor.place.offset + u.length ∧
      (∀ more, r.Passes (a.before (u ++ '\n' :: more)) front (m.before (w ++ '\n' :: more))) ∧
      r.Passes m (t :: back) b := by
  induction passes generalizing u with
  | nil => cases member
  | @cons a first next later final goes rest ih =>
    obtain ⟨ends, -⟩ := Lexer.offset_stop goes.read
    by_cases early : first.place.stop.offset ≤ a.cursor.place.offset + u.length
    · have read := goes.read
      rw [show a.cursor = ⟨u ++ '\n' :: v, a.cursor.place⟩ by rw [← here]] at read
      obtain ⟨w, left, offset, same⟩ := Lexer.next_before (contains_wants_newline r a.stack) read
        early (rest.goesOn finished.goesOn)
      have inside : t ∈ later := by
        rcases List.mem_cons.mp member with rfl | inside
        · omega
        · exact inside
      obtain ⟨front, back, x, m, rfl, after, place, passes, last⟩ :=
        ih finished left inside (by omega) (by omega)
      refine ⟨first :: front, back, x, m, rfl, after, place.trans offset, fun more => ?_, last⟩
      have moves : r.Goes (a.before (u ++ '\n' :: more)) first (next.before (w ++ '\n' :: more)) :=
        ⟨same more, goes.silent, goes.layout, goes.shifts⟩
      exact .cons moves (passes more)
    · have first_eq : t = first := by
        rcases List.mem_cons.mp member with same | inside
        · exact same
        · have := rest.start_le t inside
          rw [← ends] at this
          omega
      subst first_eq
      exact ⟨[], later, u, a, rfl, here, rfl, fun more => .nil, .cons goes rest⟩

/-- A run of line breaks goes on over the line feed, over what is blank in the text after it. -/
theorem Goes.over (goes : r.Goes a t b) (here : a.cursor.rest = u ++ '\n' :: v)
    (newline : t.kind = .newline)
    (start : t.place.start.offset ≤ a.cursor.place.offset + u.length)
    (past : a.cursor.place.offset + u.length < t.place.stop.offset) :
    ∃ skipped front, u = skipped ++ front ∧ ∀ more,
      Lexer.next (r.wants a.stack) (a.before (u ++ '\n' :: more)).cursor =
        .token (Lexer.breakToken a.cursor.place skipped front (moreLines .indentation more).1)
          ⟨(moreLines .indentation more).2, (Lexer.breakToken a.cursor.place skipped front
            (moreLines .indentation more).1).place.stop⟩ := by
  have read := goes.read
  rw [show a.cursor = ⟨u ++ '\n' :: v, a.cursor.place⟩ by rw [← here]] at read
  exact Lexer.next_over (contains_wants_newline r a.stack) read newline start past

/-- How a text is read over a line feed in a run of line breaks. Whatever comes after the line
feed, the tokens before the run are the same, and the run is the next one, over what is blank. -/
theorem Reads.exists_over {before after : Text} (vyper : r.Vyper)
    (reads : r.Reads (before ++ '\n' :: after) tokens) (member : t ∈ tokens)
    (newline : t.kind = .newline) (start : t.place.start.offset ≤ before.length)
    (past : before.length < t.place.stop.offset) :
    ∃ front back m next last skipped lead,
      tokens = front ++ t :: back ∧ r.Goes m t next ∧ r.Passes next back last ∧ last.Finished ∧
      t = Lexer.breakToken m.cursor.place skipped lead (moreLines .indentation after).1 ∧
      next.cursor = ⟨(moreLines .indentation after).2, t.place.stop⟩ ∧
      ∀ more, r.Passes (.start (before ++ '\n' :: more)) front
          (m.before (skipped ++ lead ++ '\n' :: more)) ∧
        Lexer.next (r.wants m.stack) (m.before (skipped ++ lead ++ '\n' :: more)).cursor =
          .token (Lexer.breakToken m.cursor.place skipped lead (moreLines .indentation more).1)
            ⟨(moreLines .indentation more).2, (Lexer.breakToken m.cursor.place skipped lead
              (moreLines .indentation more).1).place.stop⟩ := by
  obtain ⟨last, passes, finished⟩ := (reads_iff vyper).mp reads
  have zero : (Stage.start (before ++ '\n' :: after)).cursor.place.offset + before.length =
      before.length := Nat.zero_add _
  obtain ⟨front, back, w, m, rfl, here, offset, first, rest⟩ :=
    passes.split_over finished rfl member (by rwa [zero]) (by rwa [zero])
  rw [zero] at offset
  cases rest with
  | @cons _ _ next _ _ goes rest =>
    obtain ⟨skipped, lead, rfl, crosses⟩ := goes.over here newline (by omega) (by omega)
    have original := crosses after
    rw [show (m.before (skipped ++ lead ++ '\n' :: after)).cursor = m.cursor by
      rw [← here]; rfl, goes.read] at original
    obtain ⟨token, cursor⟩ := Lexer.Next.token.inj original
    exact ⟨front, back, m, next, last, skipped, lead, rfl, goes, rest, finished, token,
      token.symm ▸ cursor, fun more => ⟨first more, crosses more⟩⟩

end Reading

end VyperFront
