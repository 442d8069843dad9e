import VyperFront.Machine
import VyperFront.Proofs.Layout.Recast
import VyperFront.Proofs.Lexer.Piece
import VyperFront.Proofs.Lexer.Skip
import VyperFront.Proofs.Tree.Recast
import VyperFront.Reader.Parse

namespace VyperFront

namespace Lexer

/-- The same cursor in the recast text. -/
def Cursor.recast (m : Recast) (c : Cursor) : Cursor := ⟨m.text c.rest, m.place c.place⟩

def Next.recast (m : Recast) : Next → Next
  | .token t c => .token (m.token t) (c.recast m)
  | .finished => .finished
  | .stuck c => .stuck (c.recast m)

/-- Where the lexer has come to, the condition holds. -/
def Next.Keeps (here : Cursor → Prop) : Next → Prop
  | .token _ c => here c
  | .finished => True
  | .stuck c => here c

end Lexer

open Lexer

/-- From the cursors that are in the condition on, the pieces of the text are recast with it,
one after the other. -/
structure Recast.Carries (m : Recast) (here : Cursor → Prop) : Prop where
  empty {t : Text} : m.text t = [] ↔ t = []
  piece {c : Cursor} (inside : here c) (wanted : TerminalSet) : piece wanted (m.text c.rest) =
    (piece wanted c.rest).map fun reading => (m.text reading.1, m.text reading.2)
  goes {c : Cursor} {wanted : TerminalSet} {lexeme rest : Text} (inside : here c)
    (read : (Lexer.piece wanted c.rest).Reads lexeme rest) (splits : lexeme ++ rest = c.rest)
    (recast : m.text lexeme ++ m.text rest = m.text c.rest) :
    here ⟨rest, c.place.advance lexeme⟩ ∧
      m.place (c.place.advance lexeme) = (m.place c.place).advance (m.text lexeme)

variable {m : Recast} {here : Cursor → Prop}

namespace Lexer

variable {wanted : TerminalSet} {c after : Cursor} {t : SourceToken}

theorem next_recast (carries : m.Carries here) (inside : here c) (wanted : TerminalSet) :
    next wanted (c.recast m) = (next wanted c).recast m ∧ (next wanted c).Keeps here := by
  induction length : c.rest.length using Nat.strong_induction_on generalizing c with
  | _ n ih =>
    by_cases empty : c.rest = []
    · rw [next_of_nil empty, next_of_nil (carries.empty.mpr empty)]
      exact ⟨rfl, trivial⟩
    have front := frontOf_piece wanted c.rest
    have also := frontOf_piece wanted (c.recast m).rest
    have same : piece wanted (c.recast m).rest = _ := carries.piece inside wanted
    rw [same] at also
    cases read : piece wanted c.rest with
    | none =>
      rw [read] at same
      rw [next_of_none empty read, next_of_none (mt carries.empty.mp empty) same]
      exact ⟨rfl, inside⟩
    | token kind lexeme rest =>
      rw [read] at front also same
      have reads : (piece wanted c.rest).Reads lexeme rest := read ▸ .token
      obtain ⟨later, place⟩ := carries.goes inside reads front.2.2 also.2.2
      rw [next_of_token read, next_of_token same]
      simp only [Cursor.recast, ← place]
      exact ⟨rfl, later⟩
    | ignored lexeme rest =>
      rw [read] at front also same
      have reads : (piece wanted c.rest).Reads lexeme rest := read ▸ .ignored
      obtain ⟨later, place⟩ := carries.goes inside reads front.2 also.2
      have shorter : rest.length < n := by
        have := List.length_pos_iff.mpr front.1
        rw [← length, ← front.2, List.length_append]
        omega
      rw [next_of_ignored read, next_of_ignored same]
      simp only [Cursor.recast, ← place]
      exact ih _ shorter later rfl

end Lexer

end VyperFront

/-! The machine on recast tokens. What it does goes by the kinds of the tokens, so the fragments
that it builds are recast with them. -/

namespace VyperFront

/-- The same frame over recast tokens. -/
def Frame.recast (m : Recast) (f : Frame) : Frame := ⟨f.state, f.fragment.recast m⟩

namespace Machine

/-- The same machine over recast tokens. -/
def recast (m : Recast) (machine : Machine) : Machine := ⟨machine.frames.map (Frame.recast m)⟩

def Outcome.recast (m : Recast) : Outcome → Outcome
  | .shifted machine => .shifted (machine.recast m)
  | .accepted fragment => .accepted (fragment.recast m)
  | .rejected machine => .rejected (machine.recast m)

variable {m : Recast} {a : Automaton} {t : Terminal} {fragment : Fragment} {machine : Machine}

@[simp] theorem state_recast (machine : Machine) : (machine.recast m).state = machine.state := by
  obtain ⟨_ | ⟨frame, rest⟩⟩ := machine <;> rfl

theorem feedFrom_recast (steps : Nat) :
    feedFrom a t (fragment.recast m) steps (machine.recast m) =
      (feedFrom a t fragment steps machine).recast m := by
  induction steps generalizing machine with
  | zero => rfl
  | succ steps ih =>
    have parts (count : Nat) :
        (((machine.recast m).frames.take count).reverse.map (·.fragment)) =
          ((machine.frames.take count).reverse.map (·.fragment)).map (Fragment.recast m) := by
      simp [recast, ← List.map_take, ← List.map_reverse, Frame.recast]
    have below (count : Nat) : (machine.recast m).frames.drop count =
        (machine.frames.drop count).map (Frame.recast m) := by
      simp [recast, List.map_drop]
    have state (frames : List Frame) : (⟨frames.map (Frame.recast m)⟩ : Machine).state =
        (⟨frames⟩ : Machine).state := state_recast ⟨frames⟩
    rw [feedFrom, feedFrom, state_recast]
    cases (a.state machine.state).action t with
    | shift target => rfl
    | reject => rfl
    | reduce p =>
      dsimp only
      rw [parts, Fragment.reduce_recast, below, state]
      split
      · rfl
      · split
        · next target _ => exact @ih ⟨⟨target, _⟩ :: _⟩
        · rfl

theorem feed_recast : (machine.recast m).feed a t (fragment.recast m) =
    (machine.feed a t fragment).recast m := by
  have budget : (machine.recast m).budget = machine.budget := by simp [budget, recast]
  rw [feed, feed, budget, feedFrom_recast]

theorem accepts_recast (machine : Machine) (t : Terminal) :
    (machine.recast m).accepts a t = machine.accepts a t := by
  have same := @feed_recast m a t ⟨[], none⟩ machine
  rw [accepts, show (⟨[], none⟩ : Fragment) = Fragment.recast m ⟨[], none⟩ from rfl, same, accepts]
  cases machine.feed a t ⟨[], none⟩ <;> rfl

theorem expected_recast (machine : Machine) :
    (machine.recast m).expected a = machine.expected a := by
  have accepts : (machine.recast m).accepts a = machine.accepts a :=
    funext (accepts_recast machine)
  rw [expected, expected, state_recast, accepts]

end Machine

/-! Readings of a recast text. The lexer, the layout and the machine do the same on it, step by
step, so that reading comes to the recast fragment, or to the recast failure. -/

open Layout

/-- The same failure over recast tokens. -/
def Failure.recast (m : Recast) : Failure → Failure
  | .unexpectedToken t expected history =>
    .unexpectedToken (m.token t) expected (history.map (Option.map m.token))
  | .unexpectedText c previous => .unexpectedText (c.recast m) (previous.map m.token)
  | .badDedent e => .badDedent ⟨e.column, e.expected, e.place.map m.place⟩

namespace Reading

def Progress.recast (m : Recast) (p : Progress) : Progress :=
  ⟨p.machine.recast m, p.lastFed.map m.token, p.notes⟩

def Stop.recast (m : Recast) (s : Stop) : Stop := ⟨s.failure.recast m, s.notes⟩

/-- The recast result, or the recast failure. -/
def recastWith (m : Recast) (g : α → β) : Except Stop α → Except Stop β
  | .ok a => .ok (g a)
  | .error s => .error (s.recast m)

/-- The result of a whole reading over recast tokens. -/
def recastResult (m : Recast) : Except Stop (Fragment × List Note) →
    Except Stop (Fragment × List Note) :=
  recastWith m fun (fragment, notes) => (fragment.recast m, notes)

variable {m : Recast} {here : Lexer.Cursor → Prop} {r : Reading} {p : Progress} {s : Layout.State}
  {c : Lexer.Cursor} {lastRead : Option SourceToken}

/-- One after the other: what comes first is recast, and so is what comes of its result. -/
theorem bind_recast {g : α → α'} {g' : β → β'} {x : Except Stop α} {f : α → Except Stop β}
    {f' : α' → Except Stop β'} (later : ∀ a, f' (g a) = recastWith m g' (f a)) :
    (recastWith m g x >>= f') = recastWith m g' (x >>= f) := by
  cases x with
  | error => rfl
  | ok a => exact later a

theorem feed_recast (t : SourceToken) :
    r.feed (p.recast m) (m.token t) = recastWith m (Progress.recast m) (r.feed p t) := by
  have same := @Machine.feed_recast m r.automaton t.kind (.ofToken t) p.machine
  rw [feed, feed, Progress.recast, Recast.kind_token, ← Fragment.recast_ofToken, same]
  cases p.machine.feed r.automaton t.kind (.ofToken t) with
  | shifted machine => rfl
  | accepted fragment => rfl
  | rejected machine =>
    simp [Machine.Outcome.recast, Machine.expected_recast, recastWith, Stop.recast, Failure.recast]

theorem feedAll_recast (events : List (Event Terminal Extent)) :
    r.feedAll (p.recast m) (events.map (Event.recast m)) =
      recastWith m (Progress.recast m) (r.feedAll p events) := by
  induction events generalizing p with
  | nil => rfl
  | cons event rest ih =>
    cases event with
    | token t =>
      rw [List.map_cons, Event.recast, feedAll, feedAll, feed_recast]
      exact bind_recast fun _ => ih
    | note n => exact ih (p := { p with notes := n :: p.notes })
    | fail e => rfl

theorem endToken_recast (keeps : m.Keeps) (start : m.place .start = .start)
    (last : Option SourceToken) : endToken (last.map m.token) = m.token (endToken last) := by
  cases last with
  | none => simp [endToken, Recast.token, Token.map, keeps.empty, Extent.map, start]
  | some t => simp [endToken, Recast.token, Token.map, keeps.empty]

theorem conclude_recast (keeps : m.Keeps) (start : m.place .start = .start) :
    r.conclude (p.recast m) = recastResult m (r.conclude p) := by
  have same := @Machine.feed_recast m r.automaton .endOfInput (.ofToken (endToken p.lastFed))
    p.machine
  rw [Fragment.recast_ofToken, ← endToken_recast keeps start] at same
  rw [conclude, conclude]
  dsimp only [Progress.recast]
  rw [same]
  cases p.machine.feed r.automaton .endOfInput (.ofToken (endToken p.lastFed)) <;>
    simp [Machine.Outcome.recast, Machine.expected_recast, recastResult, recastWith, Stop.recast,
      Failure.recast, endToken_recast keeps start]

theorem finish_recast (keeps : m.Keeps) (start : m.place .start = .start) :
    r.finish (p.recast m) s (lastRead.map m.token) = recastResult m (r.finish p s lastRead) := by
  have remaining : r.remaining s (lastRead.map m.token) [] =
      (r.remaining s lastRead []).map (Event.recast m) := by
    have last : (lastRead.map m.token).map (·.place) =
        (lastRead.map (·.place)).map (Extent.map m.place) := by
      cases lastRead <;> rfl
    rw [Reading.remaining, last]
    exact @scanFrom_recast _ _ _ [] _ keeps
  rw [finish, finish, remaining, feedAll_recast]
  exact bind_recast fun _ => conclude_recast keeps start

theorem stuck_recast (carries : m.Carries here) (inside : here c) :
    r.stuck (p.recast m) (c.recast m) (lastRead.map m.token) =
      (r.stuck p c lastRead).recast m := by
  rw [stuck, stuck]
  cases r.mode with
  | basic => rfl
  | contextual =>
    dsimp only
    rw [(Lexer.next_recast carries inside .spelled).1]
    cases Lexer.next .spelled c with
    | token t after =>
      simp [Lexer.Next.recast, Failure.recast, Progress.recast, Machine.expected_recast]
    | finished => rfl
    | stuck => rfl

/-- Reading a recast text does the same, token by token. -/
theorem run_recast (carries : m.Carries here) (keeps : m.Keeps) (start : m.place .start = .start)
    {steps others : Nat} (inside : here c) (enough : c.rest.length < steps)
    (also : (m.text c.rest).length < others) :
    r.run others (c.recast m) s (lastRead.map m.token) (p.recast m) =
      recastResult m (r.run steps c s lastRead p) := by
  induction steps generalizing others c s lastRead p with
  | zero => omega
  | succ steps ih =>
    obtain ⟨others, rfl⟩ := Nat.exists_eq_add_one.mpr (Nat.zero_lt_of_lt also)
    have wanted : r.wanted (p.recast m).machine = r.wanted p.machine := by
      rw [Reading.wanted, Reading.wanted, Progress.recast, Machine.state_recast]
    obtain ⟨same, later⟩ := Lexer.next_recast carries inside (r.wanted p.machine)
    rw [run, run, wanted, same]
    cases read : Lexer.next (r.wanted p.machine) c with
    | finished => exact finish_recast keeps start
    | stuck after =>
      rw [read] at later
      dsimp only [Lexer.Next.recast]
      rw [stuck_recast carries later]
      rfl
    | token t after =>
      rw [read] at same later
      have shorter := (Lexer.next_eq_token read).2
      have alsoShorter : (m.text after.rest).length < (m.text c.rest).length :=
        (Lexer.next_eq_token same).2
      dsimp only [Lexer.Next.recast]
      rw [step_recast keeps]
      dsimp only
      rw [feedAll_recast]
      exact bind_recast fun _ => @ih _ _ _ (some t) _ later (by omega) (by omega)

end Reading

end VyperFront
