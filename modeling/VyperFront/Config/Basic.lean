import VyperFront.Json.Description
import VyperFront.Reader.Basic
import VyperFront.Text.CharClass

namespace VyperFront

namespace LexerMode

def text : LexerMode → String
  | contextual => "contextual"
  | basic => "basic"

def ofText? (name : String) : Option LexerMode :=
  [contextual, basic].find? (·.text == name)

end LexerMode

structure Config where
  debug : Bool
  lexer : LexerMode
  tabWidth : TabWidth
  deriving DecidableEq, Repr

namespace Config

def default : Config := ⟨false, .contextual, .eight⟩

instance : Inhabited Config := ⟨default⟩

inductive Setting where
  | debug | lexer | tabWidth
  deriving DecidableEq, Repr

def Setting.text : Setting → String
  | debug => "debug"
  | lexer => "lexer"
  | tabWidth => "tab_width"

/-- What is wrong with a value. -/
inductive Fault where
  | boolType
  | boolParsing
  | literal
  | intType
  | intParsing
  | intSize
  | intFromFloat
  | notFinite
  | belowMinimum
  deriving DecidableEq, Repr

def Fault.text : Fault → String
  | boolType => "bool_type"
  | boolParsing => "bool_parsing"
  | literal => "literal_error"
  | intType => "int_type"
  | intParsing => "int_parsing"
  | intSize => "int_parsing_size"
  | intFromFloat => "int_from_float"
  | notFinite => "finite_number"
  | belowMinimum => "greater_than_equal"

structure Issue where
  setting : Setting
  fault : Fault
  deriving DecidableEq, Repr

/-- Words for off, and words for on. -/
def offWords : List String := ["0", "f", "n", "no", "off", "false"]
def onWords : List String := ["1", "t", "y", "yes", "on", "true"]

/-- The word in small letters, as far as they are ASCII. -/
def small (word : String) : String := word.map Char.toLower

/-- A switch. Words for it may be in any case. -/
def readSwitch : Json → Except Fault Bool
  | .bool b => .ok b
  | .integer n => if n = 0 then .ok false else if n = 1 then .ok true else .error .boolParsing
  | .real literal =>
    let number := (Json.doubleOf literal).whole?
    if number = some 0 then .ok false
    else if number = some 1 then .ok true
    else .error .boolType
  | .string word =>
    if offWords.contains (small word) then .ok false
    else if onWords.contains (small word) then .ok true
    else .error .boolParsing
  | .null | .array _ | .object _ => .error .boolType

/-- The white space around numbers, which the ASCII separators do not count as. -/
def isSpacing (c : Char) : Bool := isBlank c && !(0x1c ≤ c.toNat && c.toNat ≤ 0x1f)

/-- Digits with single underscores between them, without the underscores. -/
def digitsOf? : Text → Option Text
  | [] => none
  | [c] => if c.isDigit then some [c] else none
  | c :: '_' :: rest => if c.isDigit then (digitsOf? rest).map (c :: ·) else none
  | c :: rest => if c.isDigit then (digitsOf? rest).map (c :: ·) else none

/-- Whether a number in writing is negative, and its digits. There may be zeros after
a point. -/
def numeral? (t : Text) : Option (Bool × Text) :=
  let t := ((t.dropWhile isSpacing).reverse.dropWhile isSpacing).reverse
  let (negative, t) : Bool × Text := match t with
    | '-' :: rest => (true, rest)
    | '+' :: rest => (false, rest)
    | _ => (false, t)
  let (whole, rest) := t.span (· ≠ '.')
  let zeros := rest.drop 1
  if rest = [] ∨ zeros ≠ [] ∧ zeros.all (· = '0') then
    (digitsOf? whole).map fun digits => (negative, digits.dropWhile (· = '0'))
  else none

/-- A number in writing, of as many digits as can be read. -/
def readNumeral (t : Text) : Except Fault Int :=
  match numeral? t with
  | none => .error .intParsing
  | some (negative, digits) =>
    match readWhole digits with
    | .error _ => .error .intSize
    | .ok magnitude => .ok (if negative then -magnitude else magnitude)

/-- Doubles are taken for whole numbers as long as these have 64 binary digits, sign included. -/
def isShort (n : Int) : Bool := n.natAbs < Nat.pow 2 63

/-- A whole number. -/
def readNumber : Json → Except Fault Int
  | .bool b => .ok (if b then 1 else 0)
  | .integer n => .ok n
  | .real literal =>
    let number := Json.doubleOf literal
    if !number.isFinite then .error .notFinite
    else
      match number.whole? with
      | some n => if isShort n then .ok n else .error .intSize
      | none => .error .intFromFloat
  | .string s => readNumeral s.toList
  | .null | .array _ | .object _ => .error .intType

def readTabWidth (j : Json) : Except Fault TabWidth := do
  match TabWidth.ofInt? (← readNumber j) with
  | some width => .ok width
  | none => .error .belowMinimum

def readLexer : Json → Except Fault LexerMode
  | .string name =>
    match LexerMode.ofText? name with
    | some mode => .ok mode
    | none => .error .literal
  | _ => .error .literal

/-- The value of a setting: what is given for it, or else the default, and what
is wrong with it. -/
def setting (members : List (String × Json)) (name : Setting) (read : Json → Except Fault α)
    (fallback : α) : α × List Issue :=
  match Json.lookup name.text members with
  | none => (fallback, [])
  | some value =>
    match read value with
    | .ok a => (a, [])
    | .error fault => (fallback, [⟨name, fault⟩])

/-- The configuration that the members of an object give, or all that is wrong
with them. Members that are no settings do not matter. -/
def ofMembers (members : List (String × Json)) : Except (List Issue) Config :=
  let (debug, debugIssues) := setting members .debug readSwitch default.debug
  let (lexer, lexerIssues) := setting members .lexer readLexer default.lexer
  let (tabWidth, widthIssues) := setting members .tabWidth readTabWidth default.tabWidth
  match debugIssues ++ lexerIssues ++ widthIssues with
  | [] => .ok ⟨debug, lexer, tabWidth⟩
  | issues => .error issues

end Config

end VyperFront
