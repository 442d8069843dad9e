import VyperFront.Text.Place

/-! Tokens: a kind, the text that was read, and where it was found. The layout
works for any kinds and any way to record places. -/

namespace VyperFront

structure Token (κ π : Type) where
  kind : κ
  text : Text
  place : π
  deriving DecidableEq, Repr

/-- The line on which the token ends, if its place tells. -/
def Token.endLine {κ π : Type} [HasEndLine π] (t : Token κ π) : Option Int :=
  HasEndLine.endLine t.place

end VyperFront
