import VyperFront.Lexeme.Basic

/-! Line breaks. A run of line breaks is one lexeme, with the comments and blank
lines in it and the indentation after its last break. A line goes on after a
backslash at its end. -/

namespace VyperFront.Lexeme

/-- Whether the characters are part of a comment or stand outside of one. -/
inductive LineMode where
  | comment
  | indentation

/-- The rest of a run of line breaks: comments, line breaks, and the tabs and
spaces after each. -/
def moreLines : LineMode → Text → Text × Text
  | _, [] => ([], [])
  | .comment, c :: rest =>
    cons c (moreLines (if c = '\n' then .indentation else .comment) rest)
  | .indentation, '\r' :: '\n' :: rest => cons '\r' (cons '\n' (moreLines .indentation rest))
  | .indentation, c :: rest =>
    if c = '\n' ∨ c = ' ' ∨ c = '\t' then cons c (moreLines .indentation rest)
    else if c = '#' then cons c (moreLines .comment rest)
    else ([], c :: rest)

/-- A run of line breaks, which begins with a line break or a comment. -/
def newline : Recognizer
  | '\n' :: rest => some (cons '\n' (moreLines .indentation rest))
  | '\r' :: '\n' :: rest => some (cons '\r' (cons '\n' (moreLines .indentation rest)))
  | '#' :: rest => some (cons '#' (moreLines .comment rest))
  | _ => none

/-- Tabs, spaces and form feeds, which only separate lexemes. -/
def isSpacing (c : Char) : Bool := c = '\t' || c = ' ' || c = '\x0c'

def spacing : Recognizer := fun t =>
  match run isSpacing t with
  | ([], _) => none
  | reading => some reading

/-- A backslash at the end of a line, with the line break. -/
def continuation : Recognizer
  | '\\' :: rest =>
    match run isSpacing rest with
    | (blanks, '\n' :: after) => some ('\\' :: blanks ++ ['\n'], after)
    | (blanks, '\r' :: '\n' :: after) => some ('\\' :: blanks ++ ['\r', '\n'], after)
    | _ => none
  | _ => none

end VyperFront.Lexeme
