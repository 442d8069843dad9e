import VyperFront.Proofs.Layout.Run
import VyperFront.Proofs.Lexer.Skip
import VyperFront.Proofs.Parser.Derivation

namespace VyperFront

open Stack Layout

/-- Where a reading is. -/
structure Stage where
  cursor : Lexer.Cursor
  layout : Layout.State
  stack : Stack

namespace Stage

/-- Before the first token of a text. -/
def start (text : Text) : Stage := ⟨⟨text, .start⟩, .start, []⟩

/-- Nothing is left to be read. -/
def Finished (a : Stage) : Prop := Lexer.next .spelled a.cursor = .finished

end Stage

namespace Reading

/-- The terminals that the lexer looks for when the stack is that of the machine. -/
abbrev wants (r : Reading) (stack : Stack) : TerminalSet := r.wanted stack.machine

/-- A token is read, and what the layout makes of it is shifted. -/
structure Goes (r : Reading) (a : Stage) (t : SourceToken) (b : Stage) : Prop where
  read : Lexer.next (r.wants a.stack) a.cursor = .token t b.cursor
  silent : failureOf? (step r.tabWidth a.layout t).1 = none
  layout : b.layout = (step r.tabWidth a.layout t).2
  shifts : Shifts a.stack (tokensOf (step r.tabWidth a.layout t).1) b.stack

/-- Tokens are read one after the other. -/
inductive Passes (r : Reading) : Stage → List SourceToken → Stage → Prop where
  | nil : Passes r a [] a
  | cons (goes : Goes r a t b) (rest : Passes r b later final) : Passes r a (t :: later) final

variable {r : Reading} {a b middle : Stage} {t : SourceToken} {tokens more : List SourceToken}
  {p : Progress} {text : Text}

theorem Goes.kind (goes : r.Goes a t b) : t.kind ≠ .endOfInput :=
  (TerminalSet.contains_spelled.mp (Lexer.spelled_of_next goes.read)).2.2

theorem Goes.sound (goes : r.Goes a t b) (sound : Sound a.stack) : Sound b.stack :=
  goes.shifts.sound sound

theorem Passes.sound (passes : r.Passes a tokens b) (sound : Sound a.stack) : Sound b.stack := by
  induction passes with
  | nil => exact sound
  | cons goes _ ih => exact ih (goes.sound sound)

theorem Passes.exists_text (passes : r.Passes a tokens b) :
    ∃ text, a.cursor.rest = text ++ b.cursor.rest ∧
      b.cursor.place = a.cursor.place.advance text := by
  induction passes with
  | nil => exact ⟨[], rfl, rfl⟩
  | @cons a t next _ _ goes _ ih =>
    obtain ⟨skipped, rest, skips, first, _, stop⟩ := Lexer.next_eq_token_iff.mp goes.read
    obtain ⟨text, later, place⟩ := ih
    have front := Lexer.frontOf_piece (r.wants a.stack) rest
    rw [first] at front
    refine ⟨skipped ++ t.text ++ text, ?_, ?_⟩
    · rw [← skips.splits, ← front.2.2, later]
      simp
    · rw [place, stop, ← Place.advance_append]

theorem Passes.shifts (passes : r.Passes a tokens b) :
    failureOf? (Layout.run r.tabWidth a.layout tokens).1 = none ∧
      b.layout = (Layout.run r.tabWidth a.layout tokens).2 ∧
      Shifts a.stack (tokensOf (Layout.run r.tabWidth a.layout tokens).1) b.stack := by
  induction passes with
  | nil => exact ⟨rfl, rfl, .nil⟩
  | @cons a t next _ _ goes _ ih =>
    obtain ⟨silent, layout, shifts⟩ := ih
    rw [goes.layout] at silent layout shifts
    refine ⟨?_, layout, ?_⟩
    · rw [Layout.run, failureOf?_append, goes.silent, silent]
      rfl
    · rw [Layout.run, tokensOf_append]
      exact shifts_append_iff.mpr ⟨next.stack, goes.shifts, shifts⟩

theorem passes_append_iff :
    r.Passes a (tokens ++ more) b ↔ ∃ middle, r.Passes a tokens middle ∧ r.Passes middle more b := by
  constructor
  · intro passes
    induction tokens generalizing a with
    | nil => exact ⟨a, .nil, passes⟩
    | cons t rest ih =>
      cases passes with
      | cons goes later =>
        obtain ⟨middle, first, second⟩ := ih later
        exact ⟨middle, .cons goes first, second⟩
  · rintro ⟨middle, first, second⟩
    induction first with
    | nil => exact second
    | cons goes _ ih => exact .cons goes (ih second)

/-- The machine follows the stack, token by token. -/
theorem tokenizes_iff (vyper : r.Vyper) (sound : Sound a.stack)
    (machine : p.machine = a.stack.machine) :
    r.Tokenizes a.cursor a.layout p tokens ↔ ∃ b, r.Passes a tokens b ∧ b.Finished := by
  induction tokens generalizing a p with
  | nil =>
    constructor
    · intro tokenizes
      cases tokenizes with
      | done finished => exact ⟨a, .nil, Lexer.next_finished_of_finished finished _⟩
    · rintro ⟨b, passes, finished⟩
      cases passes
      exact .done (Lexer.next_finished_of_finished finished _)
  | cons t rest ih =>
    have inside {wanted : TerminalSet} {after : Lexer.Cursor}
        (read : Lexer.next wanted a.cursor = .token t after) :=
      inside_next (w := r.tabWidth) (s := a.layout) read
    constructor
    · intro tokenizes
      cases tokenizes with
      | @more _ _ after _ _ q _ read taken later =>
        obtain ⟨silent, moved, shifts, same⟩ :=
          (feedAll_eq_ok_iff vyper sound machine (inside read)).mp ⟨q, taken, rfl⟩
        obtain ⟨b, passes, finished⟩ :=
          (ih (a := ⟨after, _, moved⟩) (shifts.sound sound) same).mp later
        rw [machine] at read
        exact ⟨b, .cons ⟨read, silent, rfl, shifts⟩ passes, finished⟩
    · rintro ⟨b, passes, finished⟩
      cases passes with
      | @cons _ _ next _ _ goes later =>
        obtain ⟨q, taken, same⟩ := (feedAll_eq_ok_iff vyper sound machine (inside goes.read)).mpr
          ⟨goes.silent, next.stack, goes.shifts, rfl⟩
        refine @Tokenizes.more _ _ _ next.cursor _ _ _ _ ?_ taken ?_
        · rw [machine]
          exact goes.read
        · rw [← goes.layout]
          exact (ih (goes.sound sound) same).mpr ⟨b, later, finished⟩

theorem reads_iff (vyper : r.Vyper) :
    r.Reads text tokens ↔ ∃ b, r.Passes (.start text) tokens b ∧ b.Finished :=
  tokenizes_iff vyper (a := .start text) .nil rfl

/-- A source that is read to its end is parsed, if what the layout makes of the tokens can be
derived. -/
theorem parseText_of_reads (vyper : r.Vyper) {source : Text} {d : Derivation} {tree : Tree}
    (reads : r.Reads (ended source) tokens) (silent : failureOf? (scan r.tabWidth tokens) = none)
    (derives : d.Derives .sourceFile (tokensOf (scan r.tabWidth tokens)))
    (trees : d.trees = [tree]) : (r.parseText source).outcome = .ok tree := by
  obtain ⟨notes, ok⟩ :=
    read_of_reads vyper reads silent (accepts_nil_iff.mpr ⟨d, derives, rfl⟩)
  exact (outcome_eq_ok_iff source).mpr ⟨_, ⟨notes, ok⟩, treeOf_whole d trees⟩

end Reading

end VyperFront
