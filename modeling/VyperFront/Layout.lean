import VyperFront.Token

/-! The layout: indentation as tokens. After each line break outside of brackets
the indentation of the next line is compared with the levels that are open. A
deeper line opens a level; a shallower one closes levels, and has to come out at
one that is open. At the end all levels are closed. -/

namespace VyperFront

/-- How many columns a tab counts for. -/
structure TabWidth where
  columns : Nat
  pos : 0 < columns
  deriving DecidableEq, Repr

namespace TabWidth

/-- The tab width of a number of columns, which has to be positive. -/
def ofInt? (columns : Int) : Option TabWidth :=
  match columns with
  | .ofNat (n + 1) => some ⟨n + 1, n.succ_pos⟩
  | _ => none

/-- Tabs count for eight columns unless said otherwise. -/
def eight : TabWidth := ⟨8, by decide⟩

instance : Inhabited TabWidth := ⟨eight⟩

/-- Says what is wrong with a number of columns that is no tab width. -/
def refusal (columns : Int) : String := s!"tab_width must be at least 1, got {columns}"

/-- The width of an indentation. Only spaces and tabs count. -/
def measure (w : TabWidth) (indentation : Text) : Nat :=
  indentation.count ' ' + indentation.count '\t' * w.columns

end TabWidth

namespace Layout

/-- What the layout sees in a token. -/
inductive Role where
  | newline | opener | closer | other
  deriving DecidableEq, Repr

/-- Token kinds that a layout can work on. -/
class Kind (κ : Type) where
  role : κ → Role
  indent : κ
  dedent : κ
  indent_ne_dedent : indent ≠ dedent

/-- How many brackets are open, and the levels that are, innermost first. The
outermost level, which is zero and never closed, is not listed. -/
structure State where
  depth : Nat
  levels : List Nat
  deriving DecidableEq, Repr

namespace State

def start : State := ⟨0, []⟩

/-- The innermost level that is open. -/
def current (s : State) : Nat := s.levels.headD 0

/-- All open levels, outermost first. -/
def openLevels (s : State) : List Nat := 0 :: s.levels.reverse

end State

/-- A line that comes out between two open levels, with the place of the token that it begins in. -/
structure BadDedent (π : Type) where
  column : Nat
  expected : List Nat
  place : π
  deriving DecidableEq, Repr

namespace BadDedent

variable {π : Type} [HasEndLine π]

/-- The line that comes out badly, which is the one that the token ends on. -/
def line (e : BadDedent π) : Option Int := HasEndLine.endLine e.place

/-- The failure in words. -/
def message (e : BadDedent π) : String :=
  let place := match e.line.filter (· ≠ 0) with
    | some line => s!" at line {line}"
    | none => ""
  s!"Unexpected dedent to column {e.column}{place}. Expected one of columns " ++
    ", ".intercalate (e.expected.map toString)

end BadDedent

/-- What the layout does, for those who follow it. -/
inductive Note where
  | found (width current : Nat)
  | opened (level : Nat)
  | closed (back : Nat)
  | closedAtEnd (remaining : Nat)
  deriving DecidableEq, Repr

/-- What comes out of the layout, in order. Nothing comes after a failure. -/
inductive Event (κ π : Type) where
  | token (token : Token κ π)
  | note (note : Note)
  | fail (error : BadDedent π)
  deriving DecidableEq, Repr

variable {κ π : Type} [Kind κ]

/-- Closes the levels deeper than the width, one by one. -/
def close (width : Nat) (token : Token κ π) : List Nat → List (Event κ π) × List Nat
  | [] => ([], [])
  | level :: rest =>
    if width < level then
      let (events, levels) := close width token rest
      (.note (.closed (rest.headD 0)) :: .token token :: events, levels)
    else ([], level :: rest)

/-- Compares the line after a line break with the open levels. The text is what
follows the last line feed of the token. -/
def indentation (w : TabWidth) (s : State) (t : Token κ π) : List (Event κ π) × State :=
  let text := Text.lastLine t.text
  let width := w.measure text
  let found : Event κ π := .note (.found width s.current)
  if s.current < width then
    ([found, .note (.opened width), .token ⟨Kind.indent, text, t.place⟩],
      { s with levels := width :: s.levels })
  else
    let (closing, levels) := close width ⟨Kind.dedent, text, t.place⟩ s.levels
    let failure := if levels.headD 0 = width then [] else [.fail ⟨width, s.openLevels, t.place⟩]
    (found :: closing ++ failure, { s with levels })

/-- What one token brings out. Line breaks within brackets are left out, and one
without a line feed, a comment at the very end, indents nothing. -/
def step (w : TabWidth) (s : State) (t : Token κ π) : List (Event κ π) × State :=
  match Kind.role t.kind with
  | .newline =>
    if s.depth ≠ 0 then ([], s)
    else if t.text.contains '\n' then
      let (events, s) := indentation w s t
      (.token t :: events, s)
    else ([.token t], s)
  | .opener => ([.token t], { s with depth := s.depth + 1 })
  | .closer => ([.token t], { s with depth := s.depth - 1 })
  | .other => ([.token t], s)

/-- Closes all levels at the end, at the place of the last token. -/
def finish (last : π) : List Nat → List (Event κ π)
  | [] => []
  | _ :: rest =>
    .note (.closedAtEnd rest.length) :: .token ⟨Kind.dedent, [], last⟩ :: finish last rest

def isFailure : Event κ π → Bool
  | .fail _ => true
  | _ => false

/-- The events of a whole stream of tokens, from a state and the last token's
place. -/
def scanFrom (w : TabWidth) (s : State) (last : Option π) : List (Token κ π) → List (Event κ π)
  | [] =>
    match last with
    | some place => finish place s.levels
    | none => []
  | t :: rest =>
    let (events, s) := step w s t
    if events.any isFailure then events else events ++ scanFrom w s (some t.place) rest

/-- The events of a whole stream of tokens. -/
def scan (w : TabWidth) (tokens : List (Token κ π)) : List (Event κ π) :=
  scanFrom w .start none tokens

end Layout

end VyperFront
