import VyperFront.Diagnostic.Hint
import VyperFront.Diagnostic.SyntaxError
import VyperFront.Layout
import VyperFront.Machine
import VyperFront.Text.Quoted

namespace VyperFront

namespace Terminal

/-- The name of a terminal in reports: its fixed text if it has one. -/
def label (t : Terminal) : String :=
  match t.spelling? with
  | some s => s
  | none =>
    match t with
    | name => "NAME"
    | decNumber => "DEC_NUMBER"
    | hexNumber => "HEX_NUMBER"
    | octNumber => "OCT_NUMBER"
    | binNumber => "BIN_NUMBER"
    | floatNumber => "FLOAT_NUMBER"
    | string => "STRING"
    | longString => "LONG_STRING"
    | newline => "_NEWLINE"
    | indent => "_INDENT"
    | dedent => "_DEDENT"
    | _ => "$END"

end Terminal

inductive Failure where
  /-- A token that cannot come where it does, with the terminals that can. Where
  the token was not wanted to begin with, also the token before it, if any. -/
  | unexpectedToken (token : SourceToken) (expected : List Terminal)
      (history : Option (Option SourceToken))
  /-- Text that begins no token, with the token before it, if any. -/
  | unexpectedText (cursor : Lexer.Cursor) (previous : Option SourceToken)
  | badDedent (error : Layout.BadDedent Extent)

namespace Failure

def describe (t : SourceToken) : String :=
  match t.kind with
  | .newline => "end of line"
  | .indent => "indent"
  | .dedent => "dedent"
  | .endOfInput => "end of input"
  | _ => "token " ++ String.ofList (Text.quoted t.text)

/-- The failure in words. -/
def message : Failure → String
  | unexpectedToken token _ _ => "Unexpected " ++ describe token
  | unexpectedText cursor _ =>
    "Unexpected character " ++ String.ofList (Text.quoted (cursor.rest.take 1))
  | badDedent e => e.message

def line : Failure → Nat
  | unexpectedToken token _ _ => token.place.start.line
  | unexpectedText cursor _ => cursor.place.line
  | badDedent e => e.place.stop.line

/-- The column. A line that is dedented badly fails where its text begins. -/
def column : Failure → Nat
  | unexpectedToken token _ _ => token.place.start.column
  | unexpectedText cursor _ => cursor.place.column
  | badDedent e => e.column + 1

/-- How many characters around the failure a report shows, to either side. -/
def reach : Nat := 40

/-- A token in a report. -/
def mention (t : SourceToken) : Text :=
  t.kind.label.toList ++ " ".toList ++ t.text.quoted

/-- The part of the line around an offset that a report shows. -/
def excerpt (text : Text) (offset : Nat) : Text :=
  Text.lastLine (text.slice (offset - reach) offset) ++
    (text.slice offset (offset + reach)).takeWhile (· ≠ '\n')

def mentionPrevious : Option SourceToken → Text
  | some token => mention token
  | none => []

/-- All that is known about the failure: the token or the text around it, what
was expected, and the token before. This is what hints are looked for in. -/
def report (text : Text) : Failure → Text
  | unexpectedToken token expected history =>
    let expected := ", ".intercalate (expected.map Terminal.label)
    mention token ++ s!". Expected one of: {expected}.".toList ++
      mentionPrevious (history.bind id)
  | unexpectedText cursor previous =>
    excerpt text cursor.place.offset ++ ". ".toList ++ mentionPrevious previous
  | badDedent e => e.message.toList

/-- The error that the failure is in a source, given the text that was read. -/
def toError (f : Failure) (source text : Text) : SyntaxError :=
  let line : Option Int := some f.line
  let hint := Hint.detect source (f.report text) line
  { message := f.message
    line
    column := some f.column
    context := (line.bind source.lineAt?).map String.ofList
    suggestion := some ((hint.map Hint.suggestion).getD "Check syntax around this line") }

end Failure

end VyperFront
