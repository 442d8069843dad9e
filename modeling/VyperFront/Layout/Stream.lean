import VyperFront.Layout

/-! Streams: layouts that are asked for one token after the other. Each stream has
its own levels, so that several of them can be asked in turn. -/

namespace VyperFront.Layout

variable {κ π : Type} [Kind κ]

/-- The tokens among the events of a layout. -/
def tokensOf (events : List (Event κ π)) : List (Token κ π) :=
  events.filterMap fun
    | .token t => some t
    | _ => none

/-- The failure among the events of a layout. -/
def failureOf? (events : List (Event κ π)) : Option (BadDedent π) :=
  events.findSome? fun
    | .fail e => some e
    | _ => none

/-- The notes among the events of a layout. -/
def notesOf (events : List (Event κ π)) : List Note :=
  events.filterMap fun
    | .note n => some n
    | _ => none

/-- What a stream has not given out yet: events that are waiting, the tokens it has
not looked at, and the place of the last one it has. -/
structure Stream (κ π : Type) where
  waiting : List (Event κ π)
  state : State
  last : Option π
  rest : List (Token κ π)

/-- What a stream says when it is asked. -/
inductive Reply (κ π : Type) where
  | token (token : Token κ π)
  | failed (error : BadDedent π)
  | ended
  deriving DecidableEq, Repr

namespace Stream

def start (tokens : List (Token κ π)) : Stream κ π := ⟨[], .start, none, tokens⟩

/-- A stream that has nothing to give out any more. -/
def spent : Stream κ π := ⟨[], .start, none, []⟩

/-- The first event that is no note: a token or a failure, with the events after
it. -/
def first? : List (Event κ π) → Option (Reply κ π × List (Event κ π))
  | [] => none
  | .note _ :: rest => first? rest
  | .token t :: rest => some (.token t, rest)
  | .fail e :: _ => some (.failed e, [])

/-- Looks at tokens until one brings something out, and closes all levels at the
end. -/
def pull (w : TabWidth) (s : State) (last : Option π) :
    List (Token κ π) → Reply κ π × Stream κ π
  | [] =>
    match last.bind fun place => first? (finish (κ := κ) place s.levels) with
    | some (reply, waiting) => (reply, ⟨waiting, .start, none, []⟩)
    | none => (.ended, spent)
  | t :: rest =>
    let (events, s) := step w s t
    match first? events with
    | some (.failed e, _) => (.failed e, spent)
    | some (reply, waiting) => (reply, ⟨waiting, s, some t.place, rest⟩)
    | none => pull w s (some t.place) rest

/-- Asks for the next token. After a failure, and after the last token, the stream
has ended. -/
def next (w : TabWidth) (stream : Stream κ π) : Reply κ π × Stream κ π :=
  match first? stream.waiting with
  | some (.failed e, _) => (.failed e, spent)
  | some (reply, waiting) => (reply, { stream with waiting })
  | none => pull w stream.state stream.last stream.rest

/-- Asks streams in the given order. -/
def interleave (w : TabWidth) (streams : List (Stream κ π)) : List Nat → List (Reply κ π)
  | [] => []
  | i :: order =>
    match streams[i]? with
    | none => .ended :: interleave w streams order
    | some stream =>
      let (reply, stream) := stream.next w
      reply :: interleave w (streams.set i stream) order

end Stream

end VyperFront.Layout
