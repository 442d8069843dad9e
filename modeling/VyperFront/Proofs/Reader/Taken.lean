import VyperFront.Proofs.Contextual
import VyperFront.Proofs.Lexer.Skip
import VyperFront.Proofs.Machine.Viable

namespace VyperFront

open Stack Layout

namespace Reading

/-- The tokens that the machine takes of what comes out of the layout. -/
def takenAll (r : Reading) (p : Progress) : List (Event Terminal Extent) → List SourceToken
  | [] => []
  | .token t :: rest =>
    match r.feed p t with
    | .ok p => t :: takenAll r p rest
    | .error _ => []
  | .note n :: rest => takenAll r { p with notes := n :: p.notes } rest
  | .fail _ :: _ => []

/-- The tokens that the machine takes while reading goes on. -/
def takenFrom (r : Reading) : (steps : Nat) → Lexer.Cursor → Layout.State → Option SourceToken →
    Progress → List SourceToken
  | 0, _, _, _, _ => []
  | steps + 1, c, layout, lastRead, p =>
    match Lexer.next (r.wanted p.machine) c with
    | .finished => r.takenAll p (r.remaining layout lastRead [])
    | .stuck _ => []
    | .token t c =>
      let (events, layout) := Layout.step r.tabWidth layout t
      r.takenAll p events ++
        match r.feedAll p events with
        | .ok p => takenFrom r steps c layout (some t) p
        | .error _ => []

/-- The tokens of a text that the machine takes, those that the layout adds among them. -/
def taken (r : Reading) (text : Text) : List SourceToken :=
  r.takenFrom (text.length + 1) ⟨text, .start⟩ .start none ⟨.start, none, []⟩

/-- How reading fails after the tokens that the machine takes: the lexer is stuck, or what the
layout makes of a token is not taken, or what it adds in the end, or the end of the input. -/
inductive FailsAfter (r : Reading) : Lexer.Cursor → Layout.State → Option SourceToken → Progress →
    List SourceToken → Stop → Prop where
  | stuck (stuck : Lexer.next (r.wanted p.machine) c = .stuck after) :
    FailsAfter r c s last p [] ⟨r.stuck p after last, p.notes⟩
  | token (read : Lexer.next (r.wanted p.machine) c = .token t after)
      (fails : r.feedAll p (step r.tabWidth s t).1 = .error stop) :
    FailsAfter r c s last p (r.takenAll p (step r.tabWidth s t).1) stop
  | closing (finished : Lexer.next (r.wanted p.machine) c = .finished)
      (fails : r.feedAll p (r.remaining s last []) = .error stop) :
    FailsAfter r c s last p (r.takenAll p (r.remaining s last [])) stop
  | ending (finished : Lexer.next (r.wanted p.machine) c = .finished)
      (closed : r.feedAll p (r.remaining s last []) = .ok q) (fails : r.conclude q = .error stop) :
    FailsAfter r c s last p (tokensOf (r.remaining s last [])) stop
  | later (read : Lexer.next (r.wanted p.machine) c = .token t after)
      (taken : r.feedAll p (step r.tabWidth s t).1 = .ok q)
      (rest : FailsAfter r after (step r.tabWidth s t).2 (some t) q given stop) :
    FailsAfter r c s last p (tokensOf (step r.tabWidth s t).1 ++ given) stop

variable {r : Reading} {stack : Stack} {p q : Progress} {stop : Stop}
  {events : List (Event Terminal Extent)} {t : SourceToken}

/-- An unexpected token is one that the machine refuses. -/
def Stop.Sharp (stop : Stop) (stack : Stack) : Prop :=
  ∀ t expected history, stop.failure = .unexpectedToken t expected history → Refuses stack t

theorem takenAll_of_ok (ok : r.feedAll p events = .ok q) :
    r.takenAll p events = tokensOf events := by
  induction events generalizing p with
  | nil => rfl
  | cons event rest ih =>
    cases event with
    | note n => exact ih ok
    | fail e => cases ok
    | token t =>
      obtain ⟨next, fed, more⟩ := bind_eq_ok_iff.mp ok
      rw [takenAll, fed, tokensOf_token, ← ih more]

private theorem failsAfter_of_run {steps : Nat} {c : Lexer.Cursor} {s : Layout.State}
    {last : Option SourceToken} (enough : c.rest.length < steps)
    (fails : r.run steps c s last p = .error stop) :
    r.FailsAfter c s last p (r.takenFrom steps c s last p) stop := by
  induction steps generalizing c s last p with
  | zero => exact absurd enough (Nat.not_lt_zero _)
  | succ steps ih =>
    rw [run] at fails
    rw [takenFrom]
    cases read : Lexer.next (r.wanted p.machine) c with
    | stuck after =>
      rw [read] at fails
      cases fails
      exact .stuck read
    | finished =>
      rw [read] at fails
      dsimp only at fails ⊢
      rw [finish] at fails
      cases closed : r.feedAll p (r.remaining s last []) with
      | error other =>
        rw [closed] at fails
        cases fails
        exact .closing read closed
      | ok q =>
        rw [closed] at fails
        rw [takenAll_of_ok closed]
        exact .ending read closed fails
    | token t after =>
      rw [read] at fails
      have shorter := (Lexer.next_eq_token read).2
      dsimp only at fails ⊢
      cases taken : r.feedAll p (step r.tabWidth s t).1 with
      | error other =>
        rw [taken] at fails
        cases fails
        rw [List.append_nil]
        exact .token read taken
      | ok q =>
        rw [taken] at fails
        rw [takenAll_of_ok taken]
        exact .later read taken (ih (by omega) fails)

theorem failsAfter_of_read {text : Text} (fails : r.read text = .error stop) :
    r.FailsAfter ⟨text, .start⟩ .start none ⟨.start, none, []⟩ (r.taken text) stop :=
  failsAfter_of_run (Nat.lt_succ_self _) fails

theorem refuses_of_feed (vyper : r.Vyper) (sound : Sound stack)
    (machine : p.machine = stack.machine) (inside : t.kind ≠ .endOfInput)
    (fails : r.feed p t = .error stop) : Refuses stack t := by
  intro result feeds
  cases result with
  | accepted d => exact inside (feeds.right sound).1
  | shifted moved =>
    rw [(feed_eq_ok_iff vyper sound machine inside).mpr ⟨moved, feeds, rfl⟩] at fails
    cases fails

theorem feed_eq_error (fails : r.feed p t = .error stop) :
    ∃ expected, stop.failure = .unexpectedToken t expected none := by
  rw [feed] at fails
  split at fails
  · cases fails
  · cases fails
  · cases fails
    exact ⟨_, rfl⟩

theorem conclude_eq_error (fails : r.conclude p = .error stop) :
    ∃ expected, stop.failure = .unexpectedToken (endToken p.lastFed) expected none := by
  rw [conclude] at fails
  split at fails
  · cases fails
  · cases fails
    exact ⟨_, rfl⟩
  · cases fails
    exact ⟨_, rfl⟩

/-- If what comes out of the layout is not all taken, the machine is stopped after what it has
taken. -/
theorem shifts_of_feedAll_error (vyper : r.Vyper) (sound : Sound stack)
    (machine : p.machine = stack.machine)
    (inside : ∀ t ∈ tokensOf events, t.kind ≠ .endOfInput)
    (fails : r.feedAll p events = .error stop) :
    ∃ moved, Shifts stack (r.takenAll p events) moved ∧ stop.Sharp moved := by
  induction events generalizing p stack with
  | nil => cases fails
  | cons event rest ih =>
    cases event with
    | note n => exact ih sound machine inside fails
    | fail e =>
      cases fails
      refine ⟨stack, .nil, fun u _ _ failure => ?_⟩
      cases failure
    | token t =>
      rw [tokensOf_token, List.forall_mem_cons] at inside
      rw [feedAll] at fails
      rw [takenAll]
      cases fed : r.feed p t with
      | error other =>
        rw [fed] at fails
        cases fails
        obtain ⟨_, same⟩ := feed_eq_error fed
        refine ⟨stack, .nil, fun u _ _ failure => ?_⟩
        rw [same] at failure
        cases failure
        exact refuses_of_feed vyper sound machine inside.1 fed
      | ok next =>
        rw [fed] at fails
        obtain ⟨moved, feeds, rfl⟩ := (feed_eq_ok_iff vyper sound machine inside.1).mp fed
        obtain ⟨final, shifts, sharp⟩ := ih (p := ⟨moved.machine, some t, p.notes⟩)
          (feeds.right sound).1 rfl inside.2 fails
        exact ⟨final, .cons feeds shifts, sharp⟩

/-- The end of the input is refused if it is not accepted. -/
theorem sharp_of_conclude (vyper : r.Vyper) (sound : Sound stack)
    (machine : p.machine = stack.machine) (fails : r.conclude p = .error stop) :
    stop.Sharp stack := by
  obtain ⟨_, same⟩ := conclude_eq_error fails
  intro u _ _ failure result feeds
  rw [same] at failure
  cases failure
  cases result with
  | shifted moved => exact feeds.not_shifted rfl
  | accepted d =>
    have accepted : stack.machine.feed VyperFront.automaton .endOfInput
        (.ofToken (endToken p.lastFed)) = .accepted d.fragment := feed_of_feeds feeds sound
    rw [conclude, vyper, machine] at fails
    simp only [accepted] at fails
    cases fails

/-- Where the lexer finds nothing that is wanted, the machine refuses the token that is found
there if all are wanted. -/
theorem sharp_of_stuck (vyper : r.Vyper) (machine : p.machine = stack.machine)
    {c after : Lexer.Cursor} (stuck : Lexer.next (r.wanted p.machine) c = .stuck after)
    (last : Option SourceToken) : Stop.Sharp ⟨r.stuck p after last, p.notes⟩ stack := by
  intro t _ _ failure result feeds
  rw [Reading.stuck] at failure
  split at failure
  · cases failure
  · next contextual =>
    split at failure
    · next found =>
      cases failure
      have isWanted : (r.wanted p.machine).contains t.kind = true := by
        rw [wanted, contextual, machine, state_machine, vyper]
        simp [feeds.expected]
      cases (Lexer.next_of_stuck stuck).symm.trans (Lexer.next_narrow found isWanted)
    · cases failure
    · cases failure

/-- Reading that fails stops the machine after what it has taken. -/
theorem FailsAfter.shifts {c : Lexer.Cursor} {s : Layout.State} {last : Option SourceToken}
    {given : List SourceToken} (vyper : r.Vyper) (fails : r.FailsAfter c s last p given stop)
    (sound : Sound stack) (machine : p.machine = stack.machine) :
    ∃ moved, Shifts stack given moved ∧ stop.Sharp moved := by
  induction fails generalizing stack with
  | stuck stuck => exact ⟨stack, .nil, sharp_of_stuck vyper machine stuck _⟩
  | token read fails =>
    exact shifts_of_feedAll_error vyper sound machine (inside_next read) fails
  | closing _ fails =>
    exact shifts_of_feedAll_error vyper sound machine (kind_of_mem_remaining_nil r _ _) fails
  | ending _ closed fails =>
    obtain ⟨_, moved, shifts, same⟩ := (feedAll_eq_ok_iff vyper sound machine
      (kind_of_mem_remaining_nil r _ _)).mp ⟨_, closed, rfl⟩
    exact ⟨moved, shifts, sharp_of_conclude vyper (shifts.sound sound) same fails⟩
  | later read taken _ ih =>
    obtain ⟨_, moved, shifts, same⟩ :=
      (feedAll_eq_ok_iff vyper sound machine (inside_next read)).mp ⟨_, taken, rfl⟩
    obtain ⟨final, more, sharp⟩ := ih (shifts.sound sound) same
    exact ⟨final, shifts_append_iff.mpr ⟨moved, shifts, more⟩, sharp⟩

end Reading

end VyperFront
