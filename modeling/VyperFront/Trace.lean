import VyperFront.Text.Uppercase

namespace VyperFront

/-- A message of a part of the program. -/
structure Remark where
  scope : String
  message : String
  deriving DecidableEq, Repr

namespace Remark

/-- The line that is written for the remark. -/
def line (r : Remark) : String :=
  let label := if r.scope.isEmpty then ""
    else "[" ++ String.ofList (Text.capitals r.scope.toList) ++ "] "
  "\x1b[94mDEBUG:\x1b[0m " ++ label ++ r.message ++ "\n"

end Remark

/-- Whether remarks are written. -/
abbrev Verbose := Bool

/-- What is written for remarks. -/
def Verbose.write (verbose : Verbose) (remarks : List Remark) : String :=
  if verbose then String.join (remarks.map Remark.line) else ""

end VyperFront
