import VyperFront.Json.Value
import VyperFront.Number.Whole
import VyperFront.Text.Place

/-! Reading JSON. The numbers that are none, `NaN` and the infinities, are read as
well. Where a value is not well formed, the first fault is reported. -/

namespace VyperFront.Json

inductive Fault where
  | value
  | name
  | colon
  | comma
  | unterminated
  | controlCharacter
  | badEscape
  | badUnicodeEscape
  | extraData
  | byteOrderMark
  deriving DecidableEq, Repr

def Fault.text : Fault → String
  | value => "Expecting value"
  | name => "Expecting property name enclosed in double quotes"
  | colon => "Expecting ':' delimiter"
  | comma => "Expecting ',' delimiter"
  | unterminated => "Unterminated string starting at"
  | controlCharacter => "Invalid control character at"
  | badEscape => "Invalid \\escape"
  | badUnicodeEscape => "Invalid \\uXXXX escape"
  | extraData => "Extra data"
  | byteOrderMark => "Unexpected UTF-8 BOM (decode using utf-8-sig)"

/-- Why a text was not read. -/
inductive Error where
  /-- A fault, with the part of the text that begins with it. -/
  | malformed (fault : Fault) (rest : Text)
  /-- A whole number with more digits than can be read. -/
  | tooLong (error : TooLong)

/-- The fault in words, located in the whole text. -/
def faultMessage (text : Text) (fault : Fault) (rest : Text) : String :=
  let offset := text.length - rest.length
  let place := Place.start.advance (text.take offset)
  s!"{fault.text}: line {place.line} column {place.column} (char {offset})"

def Error.message (text : Text) : Error → String
  | malformed fault rest => faultMessage text fault rest
  | tooLong e => e.message

def isSpace (c : Char) : Bool := c = ' ' || c = '\t' || c = '\n' || c = '\r'

def skipSpace (t : Text) : Text := t.dropWhile isSpace

def hexValue? (c : Char) : Option Nat :=
  if c.isDigit then some (c.toNat - '0'.toNat)
  else if 'a' ≤ c ∧ c ≤ 'f' then some (c.toNat - 'a'.toNat + 10)
  else if 'A' ≤ c ∧ c ≤ 'F' then some (c.toNat - 'A'.toNat + 10)
  else none

/-- The number that four hexadecimal digits give. -/
def unit? (t : Text) : Option Nat :=
  match t with
  | [a, b, c, d] => do
    let a ← hexValue? a
    let b ← hexValue? b
    let c ← hexValue? c
    let d ← hexValue? d
    some (((a * 16 + b) * 16 + c) * 16 + d)
  | _ => none

def isHighSurrogate (unit : Nat) : Bool := 0xd800 ≤ unit && unit < 0xdc00
def isLowSurrogate (unit : Nat) : Bool := 0xdc00 ≤ unit && unit < 0xe000

/-- The character of a unit that belongs to no pair. A lone half of a pair is read
as the replacement character. -/
def charOfUnit (unit : Nat) : Char :=
  if isHighSurrogate unit || isLowSurrogate unit then '\ufffd' else Char.ofNat unit

def simpleEscape? : Char → Option Char
  | '"' => some '"'
  | '\\' => some '\\'
  | '/' => some '/'
  | 'b' => some '\x08'
  | 'f' => some '\x0c'
  | 'n' => some '\n'
  | 'r' => some '\r'
  | 't' => some '\t'
  | _ => none

/-- The character of a `\u` escape, given what follows the `u`. Four digits have
to be followed by something. The two escapes of a pair give one character. -/
def unicodeEscape (escape t : Text) : Except Error (Char × Text) :=
  if t.length ≤ 4 then .error (.malformed .badUnicodeEscape (escape.drop 1))
  else
    match unit? (t.take 4) with
    | none => .error (.malformed .badUnicodeEscape (escape.drop 1))
    | some high =>
      let rest := t.drop 4
      match rest with
      | '\\' :: 'u' :: second =>
        if isHighSurrogate high && 4 < second.length then
          match unit? (second.take 4) with
          | none => .error (.malformed .badUnicodeEscape (rest.drop 1))
          | some low =>
            if isLowSurrogate low then
              .ok (Char.ofNat (0x10000 + (high - 0xd800) * 0x400 + (low - 0xdc00)),
                second.drop 4)
            else .ok (charOfUnit high, rest)
        else .ok (charOfUnit high, rest)
      | _ => .ok (charOfUnit high, rest)

/-- A string up to its closing quote. The opening quote is where an unterminated
string is reported. -/
def readString (opening : Text) : (steps : Nat) → Text → Except Error (Text × Text)
  | 0, _ => .error (.malformed .unterminated opening)
  | _, [] => .error (.malformed .unterminated opening)
  | steps + 1, c :: rest =>
    if c = '"' then .ok ([], rest)
    else if c = '\\' then
      match rest with
      | [] => .error (.malformed .unterminated opening)
      | 'u' :: after => do
        let (c, rest) ← unicodeEscape (c :: rest) after
        let (chars, rest) ← readString opening steps rest
        .ok (c :: chars, rest)
      | e :: after =>
        match simpleEscape? e with
        | none => .error (.malformed .badEscape (c :: rest))
        | some e => do
          let (chars, rest) ← readString opening steps after
          .ok (e :: chars, rest)
    else if c.toNat ≤ 0x1f then .error (.malformed .controlCharacter (c :: rest))
    else do
      let (chars, rest) ← readString opening steps rest
      .ok (c :: chars, rest)

/-- The digits of a whole number: a zero, or digits that begin with none. -/
def wholeDigits : Text → Option (Text × Text)
  | '0' :: rest => some (['0'], rest)
  | c :: rest =>
    if c.isDigit then some ((c :: rest).takeWhile Char.isDigit, (c :: rest).dropWhile Char.isDigit)
    else none
  | [] => none

/-- A point and digits after it, if both are there. -/
def fraction (t : Text) : Text × Text :=
  match t with
  | '.' :: rest =>
    match rest.takeWhile Char.isDigit with
    | [] => ([], t)
    | digits => ('.' :: digits, rest.dropWhile Char.isDigit)
  | _ => ([], t)

/-- An exponent, if it has digits. -/
def exponent (t : Text) : Text × Text :=
  match t with
  | e :: rest =>
    if e = 'e' ∨ e = 'E' then
      let (sign, rest) := match rest with
        | s :: after => if s = '+' ∨ s = '-' then ([s], after) else ([], rest)
        | [] => ([], rest)
      match rest.takeWhile Char.isDigit with
      | [] => ([], t)
      | digits => (e :: sign ++ digits, rest.dropWhile Char.isDigit)
    else ([], t)
  | [] => ([], t)

/-- A number. Without a fraction and an exponent it is whole. -/
def readNumber (t : Text) : Except Error (Json × Text) :=
  let (sign, unsigned) : Text × Text := match t with
    | '-' :: rest => (['-'], rest)
    | _ => ([], t)
  match wholeDigits unsigned with
  | none => .error (.malformed .value t)
  | some (whole, rest) =>
    let (fraction, rest) := fraction rest
    let (exponent, rest) := exponent rest
    if fraction.isEmpty && exponent.isEmpty then
      match readWhole whole with
      | .error e => .error (.tooLong e)
      | .ok magnitude =>
        let magnitude : Int := magnitude
        .ok (.integer (if sign.isEmpty then magnitude else -magnitude), rest)
    else .ok (.real (String.ofList (sign ++ whole ++ fraction ++ exponent)), rest)

/-- The values that are written as words. -/
def words : List (String × Json) :=
  [("null", .null), ("true", .bool true), ("false", .bool false), ("NaN", .real "NaN"),
   ("Infinity", .real "Infinity"), ("-Infinity", .real "-Infinity")]

def readWord (t : Text) : Option (Json × Text) :=
  words.findSome? fun (word, value) =>
    if word.toList.isPrefixOf t then some (value, t.drop word.length) else none

mutual

/-- A value. It may be nested as deeply as the text allows: a limit on nested calls is left out. -/
def readValue : (depth : Nat) → Text → Except Error (Json × Text)
  | 0, t => .error (.malformed .value t)
  | depth + 1, t =>
    match t with
    | '"' :: rest => do
      let (chars, rest) ← readString t (rest.length + 1) rest
      .ok (.string (String.ofList chars), rest)
    | '\x7b' :: rest =>
      match skipSpace rest with
      | '\x7d' :: rest => .ok (.object [], rest)
      | rest => do
        let (members, rest) ← readMembers depth rest
        .ok (.object members, rest)
    | '[' :: rest =>
      match skipSpace rest with
      | ']' :: rest => .ok (.array [], rest)
      | rest => do
        let (elements, rest) ← readElements depth rest
        .ok (.array elements, rest)
    | _ =>
      match readWord t with
      | some reading => .ok reading
      | none => readNumber t

/-- The members of an object up to its closing brace. -/
def readMembers : (depth : Nat) → Text → Except Error (List (String × Json) × Text)
  | 0, t => .error (.malformed .value t)
  | depth + 1, t =>
    match t with
    | '"' :: rest => do
      let (name, rest) ← readString t (rest.length + 1) rest
      match skipSpace rest with
      | ':' :: rest => do
        let (value, rest) ← readValue depth (skipSpace rest)
        let member := (String.ofList name, value)
        match skipSpace rest with
        | '\x7d' :: rest => .ok ([member], rest)
        | ',' :: rest => do
          let (members, rest) ← readMembers depth (skipSpace rest)
          .ok (member :: members, rest)
        | rest => .error (.malformed .comma rest)
      | rest => .error (.malformed .colon rest)
    | _ => .error (.malformed .name t)

/-- The elements of an array up to its closing bracket. -/
def readElements : (depth : Nat) → Text → Except Error (List Json × Text)
  | 0, t => .error (.malformed .value t)
  | depth + 1, t => do
    let (value, rest) ← readValue depth t
    match skipSpace rest with
    | ']' :: rest => .ok ([value], rest)
    | ',' :: rest => do
      let (elements, rest) ← readElements depth (skipSpace rest)
      .ok (value :: elements, rest)
    | rest => .error (.malformed .comma rest)

end

/-- Reads a whole text. A value that begins with a bracket takes a step, and what is
within takes another, so two steps for each character are enough. -/
def read (t : Text) : Except Error Json :=
  match t with
  | '\ufeff' :: _ => .error (.malformed .byteOrderMark t)
  | _ => do
    let (value, rest) ← readValue (2 * t.length + 1) (skipSpace t)
    match skipSpace rest with
    | [] => .ok value
    | rest => .error (.malformed .extraData rest)

end VyperFront.Json
