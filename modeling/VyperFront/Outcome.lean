import VyperFront.Diagnostic.LoadError
import VyperFront.Diagnostic.SyntaxError
import VyperFront.Json.Description

namespace VyperFront

/-- Errors that can be raised. -/
inductive Raised where
  | load (error : LoadError)
  | source (error : SyntaxError)
  | badValue (message : String)
  | failedRun (message : String)
  deriving DecidableEq, Repr

namespace Raised

/-- The name of the kind of error. -/
def name : Raised → String
  | load _ => "InitializationError"
  | source _ => "VyperSyntaxError"
  | badValue _ => "ValueError"
  | failedRun _ => "RuntimeError"

def text : Raised → String
  | load e => e.text
  | source e => e.text
  | badValue message | failedRun message => message

end Raised

/-- What an outcome holds. -/
inductive Held where
  | value (value : Json)
  | error (error : Raised)

namespace Held

/-- What is held, on one line. -/
def display : Held → String
  | value j => j.display
  | error e => e.name ++ "(" ++ Json.quotedString e.text ++ ")"

/-- The text of what is held. -/
def plain : Held → String
  | value j => j.plain
  | error e => e.text

end Held

/-- What an operation ends with: an error, or what it was for. -/
abbrev Outcome := Except Held Held

namespace Outcome

def isGood : Outcome → Bool
  | .ok _ => true
  | .error _ => false

/-- What went well. An error is raised; anything else in its place is an error of
its own. -/
def unwrap : Outcome → Except Raised Held
  | .ok held => .ok held
  | .error (.error e) => .error e
  | .error held => .error (.failedRun s!"Called unwrap() on Err: {held.plain}")

/-- What went well, or something else instead. -/
def unwrapOr (o : Outcome) (instead : Held) : Held :=
  match o with
  | .ok held => held
  | .error _ => instead

/-- The outcome on one line. -/
def display : Outcome → String
  | .ok held => "Ok(" ++ held.display ++ ")"
  | .error held => "Err(" ++ held.display ++ ")"

end Outcome

end VyperFront
