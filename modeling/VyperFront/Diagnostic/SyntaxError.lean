namespace VyperFront

structure SyntaxError where
  message : String
  line : Option Int
  column : Option Int
  /-- The line that reading stopped on. -/
  context : Option String
  suggestion : Option String
  deriving DecidableEq, Repr

namespace SyntaxError

/-- Where the error is. A column is only given with a line, and neither is zero. -/
def location (e : SyntaxError) : String :=
  match e.line.filter (· ≠ 0), e.column.filter (· ≠ 0) with
  | none, _ => ""
  | some line, none => s!" at line {line}"
  | some line, some column => s!" at line {line}, column {column}"

/-- A line of the report, left out where there is nothing to say. -/
private def remark (lead : String) (text : Option String) : String :=
  match text.filter (· ≠ "") with
  | some text => "\n   " ++ lead ++ " " ++ text
  | none => ""

/-- The report of the error, over several lines. -/
def text (e : SyntaxError) : String :=
  "\n❌ Syntax Error" ++ e.location ++ ":\n   " ++ e.message ++ remark ">" e.context ++
    remark "💡" e.suggestion ++ "\n"

end SyntaxError

end VyperFront
