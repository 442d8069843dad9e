import VyperFront.Diagnostic.Failure

/-! Reading: the lexer, the layout and the machine in step. Each token that the
lexer reads goes through the layout, and what comes out goes to the machine. The
lexer can be told by the machine which terminals are wanted next. -/

namespace VyperFront

/-- Which terminals the lexer looks for: those that the machine can act on, or all. -/
inductive LexerMode where
  | contextual
  | basic
  deriving DecidableEq, Repr, Inhabited

instance : Layout.Kind Terminal where
  role
    | .newline => .newline
    | .leftParen | .leftBracket | .leftBrace => .opener
    | .rightParen | .rightBracket | .rightBrace => .closer
    | _ => .other
  indent := .indent
  dedent := .dedent
  indent_ne_dedent := by decide

/-- How a source is read. -/
structure Reading where
  automaton : Automaton
  mode : LexerMode
  tabWidth : TabWidth

namespace Reading

/-- The machine with the last token it was given, and the notes of the layout. -/
structure Progress where
  machine : Machine
  lastFed : Option SourceToken
  notes : List Layout.Note

/-- The terminals that the lexer looks for. Line breaks always count. -/
def wanted (r : Reading) (m : Machine) : TerminalSet :=
  match r.mode with
  | .contextual => (r.automaton.state m.state).expected ∪ .singleton .newline
  | .basic => .spelled

/-- A failure, with the notes up to it. -/
structure Stop where
  failure : Failure
  notes : List Layout.Note

/-- Gives a token to the machine. -/
def feed (r : Reading) (p : Progress) (t : SourceToken) : Except Stop Progress :=
  match p.machine.feed r.automaton t.kind (.ofToken t) with
  | .shifted m => .ok { p with machine := m, lastFed := some t }
  | .accepted _ => .ok { p with lastFed := some t }
  | .rejected m => .error ⟨.unexpectedToken t (m.expected r.automaton) none, p.notes⟩

/-- Gives what comes out of the layout to the machine. -/
def feedAll (r : Reading) (p : Progress) :
    List (Layout.Event Terminal Extent) → Except Stop Progress
  | [] => .ok p
  | .token t :: rest => do feedAll r (← r.feed p t) rest
  | .note n :: rest => feedAll r { p with notes := n :: p.notes } rest
  | .fail e :: _ => .error ⟨.badDedent e, p.notes⟩

/-- The end of the input as a token, at the place of the last token. -/
def endToken (last : Option SourceToken) : SourceToken :=
  ⟨.endOfInput, [], (last.map (·.place)).getD ⟨.start, .start⟩⟩

/-- Ends the input. -/
def conclude (r : Reading) (p : Progress) : Except Stop (Fragment × List Layout.Note) :=
  let t := endToken p.lastFed
  match p.machine.feed r.automaton .endOfInput (.ofToken t) with
  | .accepted fragment => .ok (fragment, p.notes)
  | .shifted m | .rejected m =>
    .error ⟨.unexpectedToken t (m.expected r.automaton) none, p.notes⟩

/-- What comes out of the layout from a state on, given the tokens that are left. -/
def remaining (r : Reading) (s : Layout.State) (lastRead : Option SourceToken) :
    List SourceToken → List (Layout.Event Terminal Extent) :=
  Layout.scanFrom r.tabWidth s (lastRead.map (·.place))

/-- Closes all levels and ends the input. -/
def finish (r : Reading) (p : Progress) (s : Layout.State) (lastRead : Option SourceToken) :
    Except Stop (Fragment × List Layout.Note) := do
  r.conclude (← r.feedAll p (r.remaining s lastRead []))

/-- Why nothing could be read that is wanted: if another token can be read there,
it is the unexpected one. -/
def stuck (r : Reading) (p : Progress) (c : Lexer.Cursor) (lastRead : Option SourceToken) :
    Failure :=
  match r.mode with
  | .basic => .unexpectedText c lastRead
  | .contextual =>
    match Lexer.next .spelled c with
    | .token t _ => .unexpectedToken t (p.machine.expected r.automaton) (some lastRead)
    | .finished | .stuck _ => .unexpectedText c lastRead

/-- Reads token by token. -/
def run (r : Reading) : (steps : Nat) → Lexer.Cursor → Layout.State → Option SourceToken →
    Progress → Except Stop (Fragment × List Layout.Note)
  | 0, c, _, lastRead, p => .error ⟨r.stuck p c lastRead, p.notes⟩
  | steps + 1, c, layout, lastRead, p =>
    match Lexer.next (r.wanted p.machine) c with
    | .finished => r.finish p layout lastRead
    | .stuck c => .error ⟨r.stuck p c lastRead, p.notes⟩
    | .token t c => do
      let (events, layout) := Layout.step r.tabWidth layout t
      run r steps c layout (some t) (← r.feedAll p events)

/-- Reads a whole text. Each token takes a character at least. -/
def read (r : Reading) (text : Text) : Except Stop (Fragment × List Layout.Note) :=
  r.run (text.length + 1) ⟨text, .start⟩ .start none ⟨.start, none, []⟩

end Reading

end VyperFront
