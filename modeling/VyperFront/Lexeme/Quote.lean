import VyperFront.Lexeme.Basic

namespace VyperFront.Lexeme

def isQuote (c : Char) : Bool := c = '"' || c = '\''

/-- The letters that may stand in front of a string, in lower case. -/
def longMarks : List Text :=
  [[], ['u'], ['b'], ['f'], ['r'], ['u', 'r'], ['b', 'r'], ['f', 'r'],
   ['r', 'u'], ['r', 'b'], ['r', 'f']]

/-- The letters that may stand in front of a string within one line. -/
def marks : List Text := [['x'], ['x', 'r']] ++ longMarks

/-- Reads the letters in front of a quote, if they are among the given ones. -/
def mark (allowed : List Text) (t : Text) : Option (Text × Text) :=
  let letters := (t.take 2).takeWhile (!isQuote ·)
  if allowed.contains (letters.map Char.toLower) then some (letters, t.drop letters.length)
  else none

/-- Up to the quote that closes a string within one line. -/
def untilQuote (quote : Char) : Recognizer
  | [] => none
  | c :: rest =>
    if c = quote then some ([c], rest)
    else if c = '\n' then none
    else if c = '\\' then
      match rest with
      | [] => none
      | d :: after => if d = '\n' then none else (untilQuote quote after).map (cons c ∘ cons d)
    else (untilQuote quote rest).map (cons c)

/-- Up to the three quotes that close a long string. -/
def untilTripleQuote (quote : Char) : Recognizer
  | [] => none
  | c :: rest =>
    if c = quote && [quote, quote].isPrefixOf rest then
      some ([c, quote, quote], rest.drop 2)
    else if c = '\\' then
      match rest with
      | [] => none
      | d :: after => (untilTripleQuote quote after).map (cons c ∘ cons d)
    else (untilTripleQuote quote rest).map (cons c)

/-- A string within one line. Two more quotes at its start make it a long one. -/
def string : Recognizer := fun t =>
  match mark marks t with
  | some (letters, quote :: body) =>
    if isQuote quote && !([quote, quote].isPrefixOf body) then
      (untilQuote quote body).map (append letters ∘ cons quote)
    else none
  | _ => none

/-- A string between triple quotes, which may hold line breaks. -/
def longString : Recognizer := fun t =>
  match mark longMarks t with
  | some (letters, quote :: body) =>
    if isQuote quote && [quote, quote].isPrefixOf body then
      (untilTripleQuote quote (body.drop 2)).map (append (letters ++ [quote, quote, quote]))
    else none
  | _ => none

end VyperFront.Lexeme
