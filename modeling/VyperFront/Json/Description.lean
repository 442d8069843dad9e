import VyperFront.Json.Reader
import VyperFront.Number.Shortest
import VyperFront.Text.Quoted

namespace VyperFront.Json

/-- The number after the sign of an exponent. -/
def exponentValue (t : Text) : Int :=
  match t with
  | _ :: '-' :: digits => -(valueOf digits : Int)
  | _ :: '+' :: digits => valueOf digits
  | _ :: digits => valueOf digits
  | [] => 0

/-- The double that a number with a point or an exponent stands for. -/
def doubleOf (literal : String) : Double :=
  if literal = "NaN" then .notANumber
  else
    let (sign, unsigned) := literal.toList.span (· = '-')
    if unsigned = "Infinity".toList then .infinite (sign ≠ [])
    else
      let (whole, rest) := unsigned.span Char.isDigit
      let (fraction, rest) := fraction rest
      let places := fraction.drop 1
      .ofDecimal (sign ≠ []) (valueOf (whole ++ places)) (exponentValue rest - places.length)

/-- The name of the type of a value. -/
def typeName : Json → String
  | null => "NoneType"
  | bool _ => "bool"
  | integer _ => "int"
  | real _ => "float"
  | string _ => "str"
  | array _ => "list"
  | object _ => "dict"

/-- Whether a value counts as true: what is neither empty nor zero does. -/
def isTruthy : Json → Bool
  | null => false
  | bool b => b
  | integer n => n ≠ 0
  | real literal => !(doubleOf literal).isZero
  | string s => s ≠ ""
  | array elements => !elements.isEmpty
  | object members => !members.isEmpty

def quotedString (s : String) : String := String.ofList (Text.quoted s.toList)

mutual

/-- The text of a value within other values. Strings are in quotes. -/
def display : Json → String
  | null => "None"
  | bool b => if b then "True" else "False"
  | integer n => toString n
  | real literal => String.ofList (doubleOf literal).text
  | string s => quotedString s
  | array elements => "[" ++ ", ".intercalate (displayAll elements) ++ "]"
  | object members => "\x7b" ++ ", ".intercalate (displayMembers members) ++ "\x7d"

def displayAll : List Json → List String
  | [] => []
  | j :: rest => j.display :: displayAll rest

def displayMembers : List (String × Json) → List String
  | [] => []
  | (name, j) :: rest => (quotedString name ++ ": " ++ j.display) :: displayMembers rest

end

/-- The text of a value on its own. A string is its own text. -/
def plain : Json → String
  | string s => s
  | j => j.display

end VyperFront.Json
