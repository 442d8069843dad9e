import VyperFront.Grammar.Symbol
import VyperFront.Lexeme.Basic
import VyperFront.Lexeme.Line
import VyperFront.Lexeme.Number
import VyperFront.Lexeme.Quote
import VyperFront.Token

/-! The lexer. It reads one piece of the text at a time, given which terminals are
wanted: the first class of lexemes that matches wins, not the longest lexeme. A
name that spells a wanted keyword is that keyword. Where no name is wanted, a
keyword is read as any fixed text, whatever comes after it. -/

namespace VyperFront

/-- A token as it stands in a source text. -/
abbrev SourceToken := Token Terminal Extent

namespace Lexer

/-- The classes that go before line continuations, names and spacing. -/
def numbersAndStrings : List (Terminal × Recognizer) :=
  [(.floatNumber, Lexeme.floatNumber), (.hexNumber, Lexeme.hexNumber),
   (.binNumber, Lexeme.binNumber), (.octNumber, Lexeme.octNumber),
   (.string, Lexeme.string), (.longString, Lexeme.longString),
   (.decNumber, Lexeme.decNumber), (.newline, Lexeme.newline)]

/-- Keywords and punctuation with their texts. -/
def spellings : List (Terminal × Text) :=
  Terminal.all.filterMap fun t => t.spelling?.map fun s => (t, s.toList)

/-- Keywords and punctuation, longer texts first. -/
def literals : List (Terminal × Text) :=
  spellings.mergeSort fun a b => b.2.length ≤ a.2.length

/-- The keyword with the given text, if it is wanted. -/
def keyword? (wanted : TerminalSet) (word : Text) : Option Terminal :=
  (literals.find? fun (t, spelling) => t.isKeyword && wanted.contains t && spelling == word).map
    (·.1)

/-- What the front of a text is read as. -/
inductive Piece where
  | token (kind : Terminal) (lexeme rest : Text)
  /-- Spacing or a line continuation. -/
  | ignored (lexeme rest : Text)
  | none

def firstOf (wanted : TerminalSet) (t : Text) :
    List (Terminal × Recognizer) → Option (Terminal × Text × Text)
  | [] => Option.none
  | (kind, recognize) :: rest =>
    if wanted.contains kind then
      match recognize t with
      | some (lexeme, after) => some (kind, lexeme, after)
      | Option.none => firstOf wanted t rest
    else firstOf wanted t rest

/-- Names, spacing and fixed texts. -/
def wordPiece (wanted : TerminalSet) (t : Text) : Piece :=
  match (if wanted.contains .name then Lexeme.name t else Option.none) with
  | some (word, rest) => .token ((keyword? wanted word).getD .name) word rest
  | Option.none =>
    match Lexeme.spacing t with
    | some (lexeme, rest) => .ignored lexeme rest
    | Option.none =>
      match firstOf wanted t (literals.map fun (kind, s) => (kind, Lexeme.literal s)) with
      | some (kind, lexeme, rest) => .token kind lexeme rest
      | Option.none => .none

/-- The first piece of a text. -/
def piece (wanted : TerminalSet) (t : Text) : Piece :=
  match firstOf wanted t numbersAndStrings with
  | some (kind, lexeme, rest) => .token kind lexeme rest
  | Option.none =>
    match Lexeme.continuation t with
    | some (lexeme, rest) => .ignored lexeme rest
    | Option.none => wordPiece wanted t

/-- How far a text has been read. -/
structure Cursor where
  rest : Text
  place : Place

/-- The next token of a text, or why there is none. -/
inductive Next where
  | token (token : SourceToken) (cursor : Cursor)
  | finished
  | stuck (cursor : Cursor)

def nextFrom (wanted : TerminalSet) : (steps : Nat) → Cursor → Next
  | 0, c => .stuck c
  | steps + 1, c =>
    if c.rest.isEmpty then .finished
    else
      match piece wanted c.rest with
      | .token kind lexeme rest =>
        let stop := c.place.advance lexeme
        .token ⟨kind, lexeme, ⟨c.place, stop⟩⟩ ⟨rest, stop⟩
      | .ignored lexeme rest => nextFrom wanted steps ⟨rest, c.place.advance lexeme⟩
      | .none => .stuck c

/-- The next token of the given kinds. Each ignored piece takes a character at
least, so there are enough steps to reach the end. -/
def next (wanted : TerminalSet) (c : Cursor) : Next :=
  nextFrom wanted (c.rest.length + 1) c

end Lexer

end VyperFront
