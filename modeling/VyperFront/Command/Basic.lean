namespace VyperFront.Command

/-- What the program is called by. -/
def program : String := "vyper-grammar"

inductive Name where
  | check | parse | outline | info
  deriving DecidableEq, Repr

namespace Name

def all : List Name := [check, parse, outline, info]

def text : Name → String
  | check => "check"
  | parse => "parse"
  | outline => "outline"
  | info => "info"

def ofText? (name : String) : Option Name := all.find? (·.text == name)

def summary : Name → String
  | check => "Check that the grammar loads"
  | parse => "Parse a file and print its syntax tree"
  | outline => "Print the declarations of a contract as JSON"
  | info => "Print grammar metadata as JSON"

/-- Whether the command works on a file. -/
def takesFile : Name → Bool
  | parse | outline => true
  | check | info => false

end Name

/-- A command, with the file that it works on. Without one it reads the standard
input. -/
structure Invocation where
  name : Name
  file : Option String
  deriving DecidableEq, Repr

/-- A text with spaces up to a width. -/
def padded (width : Nat) (t : String) : String :=
  t ++ String.ofList (List.replicate (width - t.length) ' ')

/-- The names of all commands, as one choice. -/
def choices : String := "\x7b" ++ ",".intercalate (Name.all.map Name.text) ++ "\x7d"

/-- The usage of the program, or of one command. -/
def usage : Option Name → String
  | none => s!"usage: {program} [-h] [--verbose] " ++ choices ++ " ...\n"
  | some name =>
    s!"usage: {program} {name.text} [-h]" ++ (if name.takesFile then " [filename]" else "") ++ "\n"

def helpSwitch : String := "-h, --help"
def helpSummary : String := "show this help message and exit"

/-- The help on the program. -/
def overview : String :=
  let command (name : Name) := "    " ++ padded 20 name.text ++ name.summary ++ "\n"
  usage none ++ "\nVyper grammar CLI\n\npositional arguments:\n  " ++ choices ++ "\n" ++
    String.join (Name.all.map command) ++ "\noptions:\n  " ++
    padded 22 helpSwitch ++ helpSummary ++ "\n  " ++
    padded 22 "--verbose" ++ "Enable verbose output (sent to stderr)\n"

/-- The help on one command. -/
def details (name : Name) : String :=
  let file :=
    if name.takesFile then
      "positional arguments:\n  " ++ padded 12 "filename" ++
        s!"File to {name.text} (default: read from stdin)\n\n"
    else ""
  usage (some name) ++ "\n" ++ file ++ "options:\n  " ++ padded 12 helpSwitch ++ helpSummary ++ "\n"

def help : Option Name → String
  | none => overview
  | some name => details name

end VyperFront.Command
