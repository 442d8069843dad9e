import VyperFront.Command.Basic
import VyperFront.Text.CharClass
import VyperFront.Text.Quoted

/-! The arguments of the program. Switches stand before a command or after it, and
can be shortened as long as it is clear which one is meant. A double dash ends
the switches of a command. -/

namespace VyperFront.Command

/-- What the switches do. -/
inductive Effect where
  | help
  | verbose
  deriving DecidableEq, Repr

namespace Effect

/-- The spellings of the switch in messages. -/
def label : Effect → String
  | help => "-h/--help"
  | verbose => "--verbose"

end Effect

/-- Switches by their spellings. -/
abbrev Switches := List (String × Effect)

/-- The switches before a command. -/
def generalSwitches : Switches :=
  [("-h", .help), ("--help", .help), ("--verbose", .verbose)]

/-- The switches after a command. -/
def commandSwitches : Switches := [("-h", .help), ("--help", .help)]

/-- What is attached to a switch within its argument. -/
inductive Attachment where
  | nothing
  /-- A text after an equals sign. -/
  | assigned (text : Text)
  /-- Letters right after the one of the switch. -/
  | joined (letters : Text)
  deriving DecidableEq, Repr

/-- What an argument is taken for. -/
inductive Word where
  | plain (text : String)
  /-- The double dash. -/
  | ender
  /-- A switch, with its spelling and what is attached to it. -/
  | switch (effect : Effect) (attached : Attachment)
  | unknown (text : String)
  deriving DecidableEq, Repr

def quote (s : String) : String := String.ofList (Text.quoted s.toList)

/-- Whether the argument is a number after a dash, which is no switch. -/
def isNegativeNumber (t : Text) : Bool :=
  match t with
  | '-' :: rest =>
    let rest := if Text.endsLine rest then rest.dropLast else rest
    let (whole, fraction) := rest.span isDecimalDigit
    match fraction with
    | [] => whole ≠ []
    | '.' :: digits => digits ≠ [] && digits.all isDecimalDigit
    | _ => false
  | _ => false

/-- An argument up to an equals sign, and what is after it. -/
def splitAssigned (arg : String) : String × Attachment :=
  let (front, rest) := arg.toList.span (· ≠ '=')
  match rest with
  | [] => (arg, .nothing)
  | _ :: text => (String.ofList front, .assigned text)

/-- The switches that an argument can be short for, with what is attached. One
dash and a letter can have more letters after them. -/
def meanings (switches : Switches) (arg : String) : List (String × Effect × Attachment) :=
  match arg.toList with
  | '-' :: '-' :: _ =>
    let (front, attached) := splitAssigned arg
    (switches.filter (·.1.startsWith front)).map fun (spelling, effect) =>
      (spelling, effect, attached)
  | '-' :: letter :: rest =>
    (switches.filter (·.1.toList = ['-', letter])).map fun (spelling, effect) =>
      (spelling, effect, .joined rest)
  | _ => []

/-- The switch that an argument spells out, with what is assigned to it. -/
def spelledOut? (switches : Switches) (arg : String) : Option Word :=
  match switches.lookup arg with
  | some effect => some (.switch effect .nothing)
  | none =>
    match splitAssigned arg with
    | (_, .nothing) => none
    | (front, attached) => (switches.lookup front).map fun effect => .switch effect attached

/-- Takes an argument that begins with a dash and is more than that. -/
def readSwitch (switches : Switches) (arg : String) : Except String Word :=
  match spelledOut? switches arg, meanings switches arg with
  | some word, _ => .ok word
  | none, [(_, effect, attached)] => .ok (.switch effect attached)
  | none, [] =>
    if isNegativeNumber arg.toList || arg.toList.contains ' ' then .ok (.plain arg)
    else .ok (.unknown arg)
  | none, several =>
    let matching := ", ".intercalate (several.map (·.1))
    .error s!"ambiguous option: {arg} could match {matching}"

/-- Takes an argument for what it is. -/
def readWord (switches : Switches) (arg : String) : Except String Word :=
  if arg.startsWith "-" && 1 < arg.length then readSwitch switches arg else .ok (.plain arg)

/-- Takes all arguments. After a double dash they are plain. -/
def readWords (switches : Switches) : List String → Except String (List Word)
  | [] => .ok []
  | arg :: rest =>
    if arg = "--" then .ok (.ender :: rest.map .plain)
    else do
      let word ← readWord switches arg
      return word :: (← readWords switches rest)

/-- What is left over of letters after the one of help. It may be repeated, but then
nothing can be assigned to it, and no dash follows. -/
def leftOver? : Text → Option Text
  | [] => none
  | 'h' :: '=' :: text => some text
  | 'h' :: rest => leftOver? rest
  | '-' :: rest => some ('-' :: rest)
  | _ => none

/-- What is attached to a switch although it takes nothing. -/
def Attachment.refused? : Attachment → Option Text
  | nothing => none
  | assigned text => some text
  | joined letters => leftOver? letters

/-- What is wrong with a switch, if anything. -/
def refusal? (effect : Effect) (attached : Attachment) : Option String :=
  attached.refused?.map fun text =>
    s!"argument {effect.label}: ignored explicit argument {quote (String.ofList text)}"

/-- What a command line asks for. -/
inductive Request where
  /-- Help on the program or on a command. -/
  | help (topic : Option Name)
  | run (verbose : Bool) (invocation : Invocation)
  /-- Something is wrong with the arguments of the program or of a command. -/
  | refuse (topic : Option Name) (message : String)
  deriving DecidableEq, Repr

/-- Arguments that nothing is known about. -/
def refuseExtras (extras : List String) : Request :=
  .refuse none ("unrecognized arguments: " ++ " ".intercalate extras)

/-- Takes the words after a command: its file, and arguments that nothing is known
about. The file may have the double dash on either side. -/
def readCommandWords (name : Name) (wantsFile : Bool) :
    List Word → Except Request (Option String × List String)
  | [] => .ok (none, [])
  | .switch effect attached :: rest =>
    match refusal? effect attached with
    | some message => .error (.refuse (some name) message)
    | none =>
      match effect with
      | .help => .error (.help (some name))
      | .verbose => readCommandWords name wantsFile rest
  | .unknown text :: rest => do
    let (file, extras) ← readCommandWords name wantsFile rest
    .ok (file, text :: extras)
  | .plain text :: .ender :: rest => do
    let (file, extras) ← readCommandWords name false rest
    if wantsFile then .ok (some text, extras) else .ok (file, text :: "--" :: extras)
  | .plain text :: rest => do
    let (file, extras) ← readCommandWords name false rest
    if wantsFile then .ok (some text, extras) else .ok (file, text :: extras)
  | .ender :: .plain text :: rest => do
    let (file, extras) ← readCommandWords name false rest
    if wantsFile then .ok (some text, extras) else .ok (file, "--" :: text :: extras)
  | .ender :: rest => do
    let (file, extras) ← readCommandWords name wantsFile rest
    if wantsFile then .ok (file, extras) else .ok (file, "--" :: extras)

/-- Takes the arguments after the name of a command. The extras come from before. -/
def readCommand (verbose : Bool) (extras : List String) (name : Name) (args : List String) :
    Request :=
  match readWords commandSwitches args with
  | .error message => .refuse (some name) message
  | .ok words =>
    match readCommandWords name name.takesFile words with
    | .error request => request
    | .ok (file, more) =>
      match extras ++ more with
      | [] => .run verbose ⟨name, file⟩
      | extras => refuseExtras extras

/-- Takes the name of a command, and what is after it. -/
def readName (verbose : Bool) (extras : List String) (name : String) (args : List String) :
    Request :=
  match Name.ofText? name with
  | some name => readCommand verbose extras name args
  | none =>
    let choices := ", ".intercalate (Name.all.map fun name => quote name.text)
    .refuse none s!"argument command: invalid choice: {quote name} (choose from {choices})"

/-- Takes words up to the name of a command, with the arguments that they were. -/
def readGeneral (verbose : Bool) (extras : List String) : List (Word × String) → Request
  | [] => if extras.isEmpty then .help none else refuseExtras extras
  | (.switch effect attached, _) :: rest =>
    match refusal? effect attached with
    | some message => .refuse none message
    | none =>
      match effect with
      | .help => .help none
      | .verbose => readGeneral true extras rest
  | (.unknown text, _) :: rest => readGeneral verbose (extras ++ [text]) rest
  | [(.ender, arg)] => refuseExtras (extras ++ [arg])
  | (.ender, name) :: rest | (.plain _, name) :: rest =>
    readName verbose extras name (rest.map (·.2))

/-- What the arguments ask for. Nothing at all asks for help. -/
def request (args : List String) : Request :=
  match readWords generalSwitches args with
  | .error message => .refuse none message
  | .ok words => readGeneral false [] (words.zip args)

end VyperFront.Command
