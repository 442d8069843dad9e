import VyperFront.Layout

namespace VyperFront.Layout

/-- A kind by its name. -/
structure KindName where
  name : String
  deriving DecidableEq, Repr

namespace KindName

def openers : List String := ["LPAR", "LSQB", "LBRACE"]
def closers : List String := ["RPAR", "RSQB", "RBRACE"]

/-- The kind that is read in every state, since layouts cannot do without it. -/
def newline : KindName := ⟨"_NEWLINE"⟩

def role (k : KindName) : Role :=
  if k = newline then .newline
  else if openers.contains k.name then .opener
  else if closers.contains k.name then .closer
  else .other

instance : Kind KindName := ⟨role, ⟨"_INDENT"⟩, ⟨"_DEDENT"⟩, by decide⟩

end KindName

end VyperFront.Layout
