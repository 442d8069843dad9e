namespace VyperFront

inductive Json where
  | null
  | bool (value : Bool)
  | integer (value : Int)
  /-- A number with a point or an exponent, or none at all, as it is written. -/
  | real (literal : String)
  | string (value : String)
  | array (elements : List Json)
  | object (members : List (String × Json))
  deriving Inhabited, Repr

namespace Json

/-- The value of the last member with the name. -/
def lookup (name : String) (members : List (String × Json)) : Option Json :=
  members.reverse.lookup name

/-- The member of an object with the name. -/
def get? (j : Json) (name : String) : Option Json :=
  match j with
  | object members => lookup name members
  | _ => none

def ofOption (encode : α → Json) : Option α → Json
  | some a => encode a
  | none => null

def ofNat (n : Nat) : Json := integer n

end Json

end VyperFront
