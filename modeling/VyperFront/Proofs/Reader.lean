import VyperFront.Proofs.Layout
import VyperFront.Proofs.Lexer.Wanted
import VyperFront.Proofs.Machine.Feed
import VyperFront.Reader.Basic

namespace VyperFront

open Stack Layout

namespace Reading

/-- The text is read to its end, as these tokens: each is the next one of those that are
wanted where it begins, and the machine takes what the layout makes of it. -/
inductive Tokenizes (r : Reading) :
    Lexer.Cursor → Layout.State → Progress → List SourceToken → Prop where
  | done (finished : Lexer.next (r.wanted p.machine) c = .finished) : Tokenizes r c s p []
  | more (read : Lexer.next (r.wanted p.machine) c = .token t after)
      (taken : r.feedAll p (step r.tabWidth s t).1 = .ok q)
      (rest : Tokenizes r after (step r.tabWidth s t).2 q later) : Tokenizes r c s p (t :: later)

/-- These tokens are what the lexer reads in the text. -/
def Reads (r : Reading) (text : Text) (tokens : List SourceToken) : Prop :=
  r.Tokenizes ⟨text, .start⟩ .start ⟨.start, none, []⟩ tokens

variable {r : Reading} {stack moved : Stack} {t : SourceToken} {p : Progress}
  {events : List (Event Terminal Extent)}

/-- The reading goes by the automaton of the grammar. -/
def Vyper (r : Reading) : Prop := r.automaton = VyperFront.automaton

theorem Tokenizes.unique {c : Lexer.Cursor} {s : Layout.State} {tokens others : List SourceToken}
    (first : r.Tokenizes c s p tokens) (second : r.Tokenizes c s p others) : others = tokens := by
  induction first generalizing others with
  | done finished =>
    cases second with
    | done _ => rfl
    | more read _ _ =>
      rw [finished] at read
      cases read
  | more read taken _ ih =>
    cases second with
    | done finished =>
      rw [read] at finished
      cases finished
    | more same also rest =>
      rw [read] at same
      cases same
      rw [taken] at also
      cases also
      rw [ih rest]

theorem feed_eq_ok_iff {q : Progress} (vyper : r.Vyper) (sound : Sound stack)
    (machine : p.machine = stack.machine) (inside : t.kind ≠ .endOfInput) :
    r.feed p t = .ok q ↔
      ∃ moved, Feeds stack t (.shifted moved) ∧
        q = { p with machine := moved.machine, lastFed := some t } := by
  rw [feed, vyper, machine]
  rcases rejected_or_feeds stack t with ⟨m, rejected⟩ | ⟨result, feeds, same⟩
  · rw [rejected]
    refine ⟨nofun, ?_⟩
    rintro ⟨moved, feeds, _⟩
    rw [feed_of_feeds feeds sound] at rejected
    cases rejected
  · rw [same]
    cases result with
    | accepted d => exact absurd (feeds.right sound).1 inside
    | shifted moved =>
      constructor
      · intro ok
        cases ok
        exact ⟨moved, feeds, rfl⟩
      · rintro ⟨other, also, rfl⟩
        cases feeds.unique also
        rfl

theorem bind_eq_ok_iff {x : Except ε α} {f : α → Except ε β} {b : β} :
    (x >>= f) = .ok b ↔ ∃ a, x = .ok a ∧ f a = .ok b := by
  cases x with
  | error e => exact ⟨nofun, fun ⟨_, fails, _⟩ => nomatch fails⟩
  | ok a =>
    constructor
    · exact fun same => ⟨a, rfl, same⟩
    · rintro ⟨_, same, final⟩
      cases same
      exact final

theorem feedAll_eq_ok_iff (vyper : r.Vyper) (sound : Sound stack)
    (machine : p.machine = stack.machine)
    (inside : ∀ t ∈ tokensOf events, t.kind ≠ .endOfInput) {m : Machine} :
    (∃ q, r.feedAll p events = .ok q ∧ q.machine = m) ↔
      failureOf? events = none ∧ ∃ moved, Shifts stack (tokensOf events) moved ∧
        m = moved.machine := by
  induction events generalizing p stack with
  | nil =>
    constructor
    · rintro ⟨q, ok, rfl⟩
      cases ok
      exact ⟨rfl, stack, .nil, machine⟩
    · rintro ⟨_, moved, shifts, rfl⟩
      cases shifts
      exact ⟨p, rfl, machine⟩
  | cons event rest ih =>
    cases event with
    | note n => exact ih sound machine inside
    | fail e => exact ⟨nofun, fun ⟨fails, _⟩ => nomatch fails⟩
    | token t =>
      rw [tokensOf_token] at inside ⊢
      have kind := inside t List.mem_cons_self
      have later := fun u member => inside u (List.mem_cons_of_mem t member)
      simp only [feedAll, bind_eq_ok_iff, feed_eq_ok_iff vyper sound machine kind]
      constructor
      · rintro ⟨q, ⟨_, ⟨next, feeds, rfl⟩, ok⟩, same⟩
        obtain ⟨fails, final, shifts, rfl⟩ :=
          (ih (p := ⟨next.machine, _, _⟩) (feeds.right sound).1 rfl later).mp ⟨q, ok, same⟩
        exact ⟨fails, final, .cons feeds shifts, rfl⟩
      · rintro ⟨fails, final, shifts, rfl⟩
        cases shifts with
        | @cons _ _ next _ _ feeds shifts =>
          obtain ⟨q, ok, same⟩ := (ih (p := ⟨next.machine, some t, p.notes⟩)
            (feeds.right sound).1 rfl later).mpr ⟨fails, final, shifts, rfl⟩
          exact ⟨q, ⟨_, ⟨_, feeds, rfl⟩, ok⟩, same⟩

theorem kind_of_mem_remaining_nil (r : Reading) (s : Layout.State)
    (last : Option SourceToken) :
    ∀ t ∈ tokensOf (r.remaining s last []), t.kind ≠ .endOfInput := by
  intro t member
  rw [kind_of_mem_scanFrom_nil member]
  exact Terminal.noConfusion

theorem inside_step {w : TabWidth} {s : Layout.State} (inside : t.kind ≠ .endOfInput) :
    ∀ u ∈ tokensOf (step w s t).1, u.kind ≠ .endOfInput := by
  intro u member
  rcases mem_tokensOf_step member with rfl | indent | dedent
  · exact inside
  · rw [indent]
    exact Terminal.noConfusion
  · rw [dedent]
    exact Terminal.noConfusion

/-- What the layout makes of a token that is read does not end the input. -/
theorem inside_next {wanted : TerminalSet} {c after : Lexer.Cursor} {w : TabWidth} {s : Layout.State}
    (read : Lexer.next wanted c = .token t after) :
    ∀ u ∈ tokensOf (step w s t).1, u.kind ≠ .endOfInput :=
  inside_step (TerminalSet.contains_spelled.mp (Lexer.spelled_of_next read)).2.2

private theorem finish_eq_ok_iff (vyper : r.Vyper) (sound : Sound stack)
    (machine : p.machine = stack.machine) (s : Layout.State) (last : Option SourceToken)
    {f : Fragment} :
    (∃ notes, r.finish p s last = .ok (f, notes)) ↔
      ∃ d, Accepts stack (tokensOf (r.remaining s last [])) d ∧ f = d.fragment := by
  have inside := kind_of_mem_remaining_nil r s last
  have kind (q : Progress) : (endToken q.lastFed).kind = .endOfInput := rfl
  simp only [finish, bind_eq_ok_iff]
  constructor
  · rintro ⟨notes, q, ok, final⟩
    obtain ⟨_, moved, shifts, same⟩ :=
      (feedAll_eq_ok_iff vyper sound machine inside).mp ⟨q, ok, rfl⟩
    rw [conclude, vyper, same, ← kind q] at final
    rcases rejected_or_feeds moved (endToken q.lastFed) with ⟨m, rejected⟩ | ⟨result, feeds, came⟩
    · rw [rejected] at final
      cases final
    · rw [came] at final
      cases result with
      | shifted other => cases final
      | accepted d =>
        cases final
        exact ⟨d, ⟨moved, shifts, fun t last =>
          feeds.accepted_of_kind_eq (last.trans (kind q).symm)⟩, rfl⟩
  · rintro ⟨d, ⟨moved, shifts, ends⟩, rfl⟩
    obtain ⟨q, ok, same⟩ := (feedAll_eq_ok_iff vyper sound machine inside).mpr
      ⟨failureOf?_scanFrom_nil .., moved, shifts, rfl⟩
    have came := feed_of_feeds (ends (endToken q.lastFed) rfl) (shifts.sound sound)
    refine ⟨q.notes, q, ok, ?_⟩
    rw [conclude, vyper, same, ← kind q, came]
    rfl

/-- The layout does not fail on the tokens that are left, and what comes out of it is
accepted. -/
private def Takes (r : Reading) (s : Layout.State) (last : Option SourceToken) (stack : Stack)
    (tokens : List SourceToken) (d : Derivation) : Prop :=
  failureOf? (r.remaining s last tokens) = none ∧
    Accepts stack (tokensOf (r.remaining s last tokens)) d

private theorem takes_cons_iff {s : Layout.State} {last : Option SourceToken}
    {rest : List SourceToken} {d : Derivation} :
    r.Takes s last stack (t :: rest) d ↔
      failureOf? (step r.tabWidth s t).1 = none ∧
        ∃ moved, Shifts stack (tokensOf (step r.tabWidth s t).1) moved ∧
          r.Takes (step r.tabWidth s t).2 (some t) moved rest d := by
  rw [Takes, remaining, scanFrom_cons]
  by_cases quiet : failureOf? (step r.tabWidth s t).1 = none
  · rw [if_pos quiet, failureOf?_append, quiet, Option.none_or, tokensOf_append,
      accepts_append_iff]
    constructor
    · rintro ⟨silent, middle, shifts, accepts⟩
      exact ⟨rfl, middle, shifts, silent, accepts⟩
    · rintro ⟨_, middle, shifts, silent, accepts⟩
      exact ⟨silent, middle, shifts, accepts⟩
  · rw [if_neg quiet]
    exact ⟨fun takes => absurd takes.1 quiet, fun takes => absurd takes.1 quiet⟩

/-- The basic lexer wants all that can be spelled everywhere. -/
theorem Tokenizes.basic {c : Lexer.Cursor} {s : Layout.State} {tokens : List SourceToken}
    (tokenizes : r.Tokenizes c s p tokens) (basic : r.mode = .basic) :
    Lexer.Tokenizes .spelled c tokens := by
  have wanted (m : Machine) : r.wanted m = .spelled := by rw [Reading.wanted, basic]
  induction tokenizes with
  | done finished => exact .done (wanted _ ▸ finished)
  | more read _ _ ih => exact .more (wanted _ ▸ read) ih

/-- Reading that comes to a fragment has read the text to its end. The layout does not
fail on the tokens, and the stack accepts what comes out of it. -/
private theorem exists_of_run (vyper : r.Vyper) {steps : Nat} {c : Lexer.Cursor}
    (sound : Sound stack) (machine : p.machine = stack.machine) {s : Layout.State}
    {last : Option SourceToken} {f : Fragment} {notes : List Note}
    (ok : r.run steps c s last p = .ok (f, notes)) :
    ∃ tokens, r.Tokenizes c s p tokens ∧
      ∃ d, r.Takes s last stack tokens d ∧ f = d.fragment := by
  induction steps generalizing c stack p s last with
  | zero => cases ok
  | succ steps ih =>
    rw [run] at ok
    cases next : Lexer.next (r.wanted p.machine) c with
    | stuck cursor => simp [next] at ok
    | finished =>
      rw [next] at ok
      obtain ⟨d, accepts, same⟩ := (finish_eq_ok_iff vyper sound machine s last).mp ⟨notes, ok⟩
      exact ⟨[], .done next, d, ⟨failureOf?_scanFrom_nil .., accepts⟩, same⟩
    | token t after =>
      rw [next] at ok
      obtain ⟨q, taken, more⟩ := bind_eq_ok_iff.mp ok
      obtain ⟨silent, moved, shifts, same⟩ :=
        (feedAll_eq_ok_iff vyper sound machine (inside_next next)).mp ⟨q, taken, rfl⟩
      obtain ⟨tokens, tokenizes, d, takes, came⟩ := ih (shifts.sound sound) same more
      exact ⟨t :: tokens, .more next taken tokenizes, d,
        takes_cons_iff.mpr ⟨silent, moved, shifts, takes⟩, came⟩

/-- Where the text is read to its end and the stack accepts what the layout makes of the
tokens, reading comes to a fragment. -/
private theorem run_of_takes (vyper : r.Vyper) {c : Lexer.Cursor} {tokens : List SourceToken}
    {s : Layout.State} (tokenizes : r.Tokenizes c s p tokens) {steps : Nat}
    (enough : c.rest.length < steps) (sound : Sound stack) (machine : p.machine = stack.machine)
    {last : Option SourceToken} {d : Derivation} (takes : r.Takes s last stack tokens d) :
    ∃ notes, r.run steps c s last p = .ok (d.fragment, notes) := by
  induction tokenizes generalizing stack last steps with
  | done finished =>
    obtain ⟨steps, rfl⟩ := Nat.exists_eq_add_one.mpr (Nat.zero_lt_of_lt enough)
    rw [run, finished]
    exact (finish_eq_ok_iff vyper sound machine _ last).mpr ⟨d, takes.2, rfl⟩
  | @more c t cursor _ s q _ read taken _ ih =>
    obtain ⟨steps, rfl⟩ := Nat.exists_eq_add_one.mpr (Nat.zero_lt_of_lt enough)
    obtain ⟨isWanted, less⟩ := Lexer.next_eq_token read
    have left : cursor.rest.length < steps := by omega
    have inside := inside_next (w := r.tabWidth) (s := s) read
    obtain ⟨silent, moved, shifts, later⟩ := takes_cons_iff.mp takes
    obtain ⟨other, also, same⟩ := (feedAll_eq_ok_iff vyper sound machine inside).mpr
      ⟨silent, moved, shifts, rfl⟩
    rw [taken] at also
    cases also
    obtain ⟨notes, ok⟩ := ih left (shifts.sound sound) same later
    rw [run, read]
    exact ⟨notes, bind_eq_ok_iff.mpr ⟨q, taken, ok⟩⟩

/-- What the basic lexer reads is read in step with the machine, too, if the stack accepts
what the layout makes of it. -/
private theorem tokenizes_of_takes (vyper : r.Vyper) (basic : r.mode = .basic) {c : Lexer.Cursor}
    {tokens : List SourceToken} (tokenizes : Lexer.Tokenizes .spelled c tokens)
    (sound : Sound stack) (machine : p.machine = stack.machine) {s : Layout.State}
    {last : Option SourceToken} {d : Derivation} (takes : r.Takes s last stack tokens d) :
    r.Tokenizes c s p tokens := by
  have wanted (m : Machine) : r.wanted m = .spelled := by rw [Reading.wanted, basic]
  induction tokenizes generalizing stack p s last with
  | done finished => exact .done ((wanted _).symm ▸ finished)
  | more read _ ih =>
    have inside := inside_next (w := r.tabWidth) (s := s) read
    obtain ⟨silent, moved, shifts, later⟩ := takes_cons_iff.mp takes
    obtain ⟨q, taken, same⟩ := (feedAll_eq_ok_iff vyper sound machine inside).mpr
      ⟨silent, moved, shifts, rfl⟩
    exact .more ((wanted _).symm ▸ read) taken (ih (shifts.sound sound) same later)

theorem read_eq_ok_iff (vyper : r.Vyper) (basic : r.mode = .basic) (text : Text) {f : Fragment} :
    (∃ notes, r.read text = .ok (f, notes)) ↔
      ∃ tokens, Lexer.Tokenizes .spelled ⟨text, .start⟩ tokens ∧
        failureOf? (scan r.tabWidth tokens) = none ∧
        ∃ d, Accepts [] (tokensOf (scan r.tabWidth tokens)) d ∧ f = d.fragment := by
  constructor
  · rintro ⟨notes, ok⟩
    obtain ⟨tokens, tokenizes, d, ⟨silent, accepts⟩, same⟩ := exists_of_run vyper .nil rfl ok
    exact ⟨tokens, tokenizes.basic basic, silent, d, accepts, same⟩
  · rintro ⟨tokens, tokenizes, silent, d, accepts, rfl⟩
    have takes : r.Takes .start none [] tokens d := ⟨silent, accepts⟩
    exact run_of_takes vyper (tokenizes_of_takes vyper basic tokenizes .nil rfl takes)
      (Nat.lt_succ_self _) .nil rfl takes

/-- Reading that comes to a fragment, by either lexer. -/
theorem exists_of_read (vyper : r.Vyper) {text : Text} {f : Fragment} {notes : List Note}
    (ok : r.read text = .ok (f, notes)) :
    ∃ tokens, r.Reads text tokens ∧ failureOf? (scan r.tabWidth tokens) = none ∧
      ∃ d, Accepts [] (tokensOf (scan r.tabWidth tokens)) d ∧ f = d.fragment := by
  obtain ⟨tokens, tokenizes, d, ⟨silent, accepts⟩, same⟩ := exists_of_run vyper .nil rfl ok
  exact ⟨tokens, tokenizes, silent, d, accepts, same⟩

/-- What the basic lexer reads in a text is what is read there, if the stack accepts what the
layout makes of it. -/
theorem reads_of_accepts (vyper : r.Vyper) (basic : r.mode = .basic) {text : Text}
    {tokens : List SourceToken} (tokenizes : Lexer.Tokenizes .spelled ⟨text, .start⟩ tokens)
    (silent : failureOf? (scan r.tabWidth tokens) = none) {d : Derivation}
    (accepts : Accepts [] (tokensOf (scan r.tabWidth tokens)) d) : r.Reads text tokens :=
  @tokenizes_of_takes _ _ _ vyper basic _ _ tokenizes .nil rfl _ none _ ⟨silent, accepts⟩

/-- A text that is read to its end comes to a fragment if the stack accepts what the layout
makes of the tokens. -/
theorem read_of_reads (vyper : r.Vyper) {text : Text} {tokens : List SourceToken}
    (reads : r.Reads text tokens) (silent : failureOf? (scan r.tabWidth tokens) = none)
    {d : Derivation} (accepts : Accepts [] (tokensOf (scan r.tabWidth tokens)) d) :
    ∃ notes, r.read text = .ok (d.fragment, notes) :=
  run_of_takes vyper reads (Nat.lt_succ_self _) .nil rfl ⟨silent, accepts⟩

end Reading

end VyperFront
