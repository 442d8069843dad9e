import VyperFront.Config.Basic
import VyperFront.Files
import VyperFront.Trace

/-! Where configurations come from: the first file that exists, and the environment
over it. A file that is no configuration counts for nothing. -/

namespace VyperFront

/-- The variables of the environment. -/
abbrev Environment := List (String × String)

namespace Environment

/-- Sets a variable, whether or not it was set before. -/
def set (e : Environment) (name value : String) : Environment :=
  (name, value) :: e.filter (·.1 != name)

end Environment

/-- What keeps a configuration or a grammar from being looked at to the end. -/
inductive Escape where
  | notUtf8 (error : Utf8.Error) (content : List UInt8)
  | tooLong (error : TooLong)
  /-- An error of something that the grammar was given to. -/
  | raised (name message : String)

def Escape.message : Escape → String
  | notUtf8 e content => e.message content
  | tooLong e => e.message
  | raised _ message => message

namespace Config

/-- The path of the configuration in the directory of work. -/
def localPath : String := "vyper_grammar.json"

/-- The path of the configuration below a home directory. -/
def homePath (home : String) : String :=
  let home := (home.toList.reverse.dropWhile (· = '/')).reverse
  String.ofList home ++ "/.vyper_grammar/config.json"

/-- The paths that are looked at, in this order. -/
def paths (home : String) : List String := [localPath, homePath home]

/-- The variables that turn debugging on. -/
def debugVariables : List String := ["VYPER_GRAMMAR_DEBUG", "TREE_SITTER_DEBUG"]

/-- Values that leave debugging as it is. -/
def quietWords : List String := ["", "0", "false", "no"]

/-- Whether the value of a variable turns debugging on. -/
def isFlag (value : String) : Bool :=
  !quietWords.contains (small (String.ofList (Text.trim value.toList)))

/-- Whether the environment turns debugging on. -/
def debugsBy (e : Environment) : Bool :=
  debugVariables.any fun name => (e.lookup name).any isFlag

def remark (message : String) : Remark := ⟨"config", message⟩

def unreadable (path reason : String) : Remark :=
  remark s!"Ignoring unreadable config {path}: {reason}"

/-- The value in a file, or a remark on why there is none. -/
def readFile (files : Files) (path : String) : Except Escape (Except Remark Json) :=
  match files.read path with
  | .error e => .ok (.error (unreadable path (e.message path)))
  | .ok content =>
    match textOf content with
    | .error e => .error (.notUtf8 e content)
    | .ok text =>
      match Json.read text with
      | .ok value => .ok (.ok value)
      | .error (.tooLong e) => .error (.tooLong e)
      | .error (.malformed fault rest) =>
        .ok (.error (unreadable path (Json.faultMessage text fault rest)))

/-- The members that a value gives. -/
def membersOf : Json → List (String × Json) × List Remark
  | .object members => (members, [])
  | _ => ([], [remark "Ignoring config that is not a JSON object"])

/-- The members that the first file gives. -/
def members (files : Files) (paths : List String) :
    Except Escape (List (String × Json) × List Remark) :=
  match paths.find? fun path => (files.find? path).isSome with
  | none => .ok ([], [])
  | some path => do
    match ← readFile files path with
    | .error r => .ok ([], [r])
    | .ok value => .ok (membersOf value)

/-- The configuration that members give. If anything is wrong with them the
defaults count, except for debugging. -/
def ofMembersOrDefault (members : List (String × Json)) : Config × List Remark :=
  match ofMembers members with
  | .ok c => (c, [])
  | .error issues =>
    let debug := match Json.lookup Setting.debug.text members with
      | some (.bool b) => b
      | _ => false
    let list := ", ".intercalate (issues.map fun i => s!"{i.setting.text} ({i.fault.text})")
    ({ default with debug }, [remark s!"Invalid config, using defaults: {list}"])

/-- Members with the changes that the environment makes. -/
def override (e : Environment) (members : List (String × Json)) : List (String × Json) :=
  if debugsBy e then members ++ [(Setting.debug.text, .bool true)] else members

/-- The configuration, with remarks on what did not count. -/
def load (files : Files) (paths : List String) (e : Environment) :
    Except Escape (Config × List Remark) := do
  let (members, remarks) ← members files paths
  let (config, more) := ofMembersOrDefault (override e members)
  .ok (config, remarks ++ more)

end Config

end VyperFront
