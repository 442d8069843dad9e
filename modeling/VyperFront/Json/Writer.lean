import VyperFront.Json.Value
import VyperFront.Text.Quoted

namespace VyperFront.Json

/-- An escape of four hexadecimal digits. -/
def unitEscape (unit : Nat) : Text := '\\' :: 'u' :: Quoted.hex 4 unit

def escape (c : Char) : Text :=
  if c = '"' ∨ c = '\\' then ['\\', c]
  else if c = '\n' then ['\\', 'n']
  else if c = '\r' then ['\\', 'r']
  else if c = '\t' then ['\\', 't']
  else if c = '\x08' then ['\\', 'b']
  else if c = '\x0c' then ['\\', 'f']
  else if 0x20 ≤ c.toNat ∧ c.toNat < 0x7f then [c]
  else if c.toNat < 0x10000 then unitEscape c.toNat
  else
    let beyond := c.toNat - 0x10000
    unitEscape (0xd800 + beyond / 0x400) ++ unitEscape (0xdc00 + beyond % 0x400)

def writeString (s : String) : String :=
  "\"" ++ String.ofList (s.toList.flatMap escape) ++ "\""

def writeAtom : Json → String
  | null => "null"
  | bool b => if b then "true" else "false"
  | integer n => toString n
  | real literal => literal
  | string s => writeString s
  | array _ => "[]"
  | object _ => "\x7b\x7d"

mutual

/-- The value on one line. -/
def compact : Json → String
  | array elements => "[" ++ ", ".intercalate (compactAll elements) ++ "]"
  | object members => "\x7b" ++ ", ".intercalate (compactMembers members) ++ "\x7d"
  | atom => writeAtom atom

def compactAll : List Json → List String
  | [] => []
  | j :: rest => compact j :: compactAll rest

def compactMembers : List (String × Json) → List String
  | [] => []
  | (name, j) :: rest => (writeString name ++ ": " ++ compact j) :: compactMembers rest

end

/-- Parts of a value in brackets, each on a line of its own. -/
def block (opening closing : String) (margin : String) (parts : List String) : String :=
  if parts.isEmpty then opening ++ closing
  else
    let inner := "\n" ++ margin ++ "  "
    opening ++ inner ++ ("," ++ inner).intercalate parts ++ "\n" ++ margin ++ closing

mutual

/-- The value over several lines, all but the first behind the margin. -/
def prettyFrom (margin : String) : Json → String
  | array elements => block "[" "]" margin (prettyAll (margin ++ "  ") elements)
  | object members => block "\x7b" "\x7d" margin (prettyMembers (margin ++ "  ") members)
  | atom => writeAtom atom

def prettyAll (margin : String) : List Json → List String
  | [] => []
  | j :: rest => prettyFrom margin j :: prettyAll margin rest

def prettyMembers (margin : String) : List (String × Json) → List String
  | [] => []
  | (name, j) :: rest =>
    (writeString name ++ ": " ++ prettyFrom margin j) :: prettyMembers margin rest

end

/-- The value over several lines. -/
def pretty (j : Json) : String := prettyFrom "" j

end VyperFront.Json
