import VyperFront.Lexeme.Basic

namespace VyperFront.Lexeme

/-- Digits that go on a number, each with at most one underscore before it. -/
def moreDigits (isDigit : Char → Bool) : Text → Text × Text
  | [] => ([], [])
  | c :: rest =>
    if isDigit c then cons c (moreDigits isDigit rest)
    else if c = '_' then
      match rest with
      | [] => ([], [c])
      | d :: after =>
        if isDigit d then cons c (cons d (moreDigits isDigit after)) else ([], c :: d :: after)
    else ([], c :: rest)

/-- One digit or more. -/
def digits (isDigit : Char → Bool) : Recognizer
  | [] => none
  | c :: rest => if isDigit c then some (cons c (moreDigits isDigit rest)) else none

/-- An exponent: `e` or `E`, perhaps a sign, and digits. -/
def exponent : Recognizer
  | [] => none
  | e :: rest =>
    if e = 'e' ∨ e = 'E' then
      match rest with
      | [] => none
      | sign :: after =>
        if sign = '+' ∨ sign = '-' then (digits Char.isDigit after).map (cons e ∘ cons sign)
        else (digits Char.isDigit rest).map (cons e)
    else none

/-- A reading that goes on with an exponent if one follows. -/
def withExponent (reading : Text × Text) : Text × Text :=
  match exponent reading.2 with
  | some more => append reading.1 more
  | none => reading

/-- A number with a point or an exponent, or both. The point may come first or
last. -/
def floatNumber : Recognizer := fun t =>
  match digits Char.isDigit t with
  | some (whole, '.' :: rest) =>
    match digits Char.isDigit rest with
    | some fraction => some (withExponent (append whole (cons '.' fraction)))
    | none => some (withExponent (whole ++ ['.'], rest))
  | some (whole, rest) => (exponent rest).map (append whole)
  | none =>
    match t with
    | '.' :: rest =>
      (digits Char.isDigit rest).map fun fraction => withExponent (cons '.' fraction)
    | _ => none

/-- A number in another base: `0`, the letter of the base in either case, and
digits, the first of which may have an underscore before it. -/
def based (letters : List Char) (isDigit : Char → Bool) : Recognizer
  | '0' :: letter :: rest =>
    if letters.contains letter then
      match moreDigits isDigit rest with
      | ([], _) => none
      | more => some (cons '0' (cons letter more))
    else none
  | _ => none

def isHexDigit (c : Char) : Bool :=
  c.isDigit || ('a' ≤ c && c ≤ 'f') || ('A' ≤ c && c ≤ 'F')

def hexNumber : Recognizer := based ['x', 'X'] isHexDigit
def octNumber : Recognizer := based ['o', 'O'] fun c => '0' ≤ c && c ≤ '7'
def binNumber : Recognizer := based ['b', 'B'] fun c => c = '0' || c = '1'

/-- Further zeros, as many as possible without a nonzero digit next. -/
def moreZeros : Recognizer
  | [] => some ([], [])
  | '0' :: rest =>
    match moreZeros rest with
    | some reading => some (cons '0' reading)
    | none => some ([], '0' :: rest)
  | '_' :: '0' :: rest =>
    match moreZeros rest with
    | some reading => some (cons '_' (cons '0' reading))
    | none => some ([], '_' :: '0' :: rest)
  | c :: rest => if '1' ≤ c && c ≤ '9' then none else some ([], c :: rest)

/-- A whole number in base ten. Only zero itself may begin with a zero. -/
def decNumber : Recognizer
  | [] => none
  | c :: rest =>
    if c = '0' then (moreZeros rest).map (cons c)
    else if c.isDigit then some (cons c (moreDigits Char.isDigit rest))
    else none

end VyperFront.Lexeme
