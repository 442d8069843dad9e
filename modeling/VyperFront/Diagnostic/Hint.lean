import VyperFront.Text.CharClass
import VyperFront.Text.Word

namespace VyperFront

namespace Text

/-- The line of a source with the given number, counted from one, without the
blanks around it. An empty source has no lines. -/
def lineAt? (source : Text) (line : Int) : Option Text :=
  if source.isEmpty || line < 1 then none
  else (source.lines[line.toNat - 1]?).map trim

end Text

inductive Hint where
  | badDedent
  | unexpectedIndent
  | bracesBlock
  | missingColon
  | unmatchedParentheses (opened closed : Nat)
  | unmatchedBrackets (opened closed : Nat)
  | mixedIndentation
  deriving DecidableEq, Repr

namespace Hint

/-- What to do about it. -/
def suggestion : Hint → String
  | badDedent =>
    "This line does not line up with any enclosing block; check its indentation"
  | unexpectedIndent => "Unexpected indent: this line is indented deeper than its block"
  | bracesBlock => "Vyper blocks use ':' and indentation, not braces"
  | missingColon => "Block headers need a trailing ':'"
  | unmatchedParentheses opened closed =>
    s!"Unmatched parentheses: found {opened} '(' but {closed} ')'"
  | unmatchedBrackets opened closed =>
    s!"Unmatched brackets: found {opened} '[' but {closed} ']'"
  | mixedIndentation => "Indentation mixes tabs and spaces; a tab counts as 8 columns"

/-- A short name for the mistake. -/
def code : Hint → String
  | badDedent => "bad_dedent"
  | unexpectedIndent => "unexpected_indent"
  | bracesBlock => "braces_block"
  | missingColon => "missing_colon"
  | unmatchedParentheses .. => "unmatched_parentheses"
  | unmatchedBrackets .. => "unmatched_brackets"
  | mixedIndentation => "mixed_indentation"

/-- The words that begin a line with a block below it. -/
def blockWords : List Text :=
  ["def", "if", "elif", "else", "for", "event", "struct", "flag", "enum", "interface"].map
    String.toList

/-- Whether the line begins with the word, as a whole word. -/
def beginsWith (line word : Text) : Bool :=
  word.isPrefixOf line && !((line.drop word.length).head?.any isWordChar)

/-- Whether the line is the header of a block. -/
def isBlockHeader (line : Text) : Bool := blockWords.any (beginsWith line)

/-- The hint for the header of a block without its colon. -/
def forHeader (line : Text) : Option Hint :=
  if isBlockHeader line then
    let code := Text.trimRight (line.takeWhile (· ≠ '#'))
    if code.getLast? = some '\x7b' then some bracesBlock
    else if code.getLast? = some ':' then none
    else some missingColon
  else none

/-- The indentations of the lines that are not blank. -/
def indentations (source : Text) : List Text :=
  (source.lines.filter fun line => !line.trim.isEmpty).map
    (·.takeWhile fun c => c = ' ' ∨ c = '\t')

def mixesTabsAndSpaces (source : Text) : Bool :=
  (indentations source).any (·.contains '\t') && (indentations source).any (·.contains ' ')

/-- The hint about the source as a whole. -/
def forSource (source : Text) : Option Hint :=
  if source.count '(' ≠ source.count ')' then
    some (unmatchedParentheses (source.count '(') (source.count ')'))
  else if source.count '[' ≠ source.count ']' then
    some (unmatchedBrackets (source.count '[') (source.count ']'))
  else if mixesTabsAndSpaces source then some mixedIndentation
  else none

/-- The first hint that applies, given the report of a failure and its line. -/
def detect (source report : Text) (line : Option Int) : Option Hint :=
  if Text.holds "Unexpected dedent".toList report then some badDedent
  else if Text.holds "_INDENT".toList report then some unexpectedIndent
  else
    match (line.bind source.lineAt?).bind forHeader with
    | some hint => some hint
    | none => forSource source

end Hint

end VyperFront
