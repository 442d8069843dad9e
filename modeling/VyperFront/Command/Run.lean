import VyperFront.Command.Arguments
import VyperFront.Json.Writer
import VyperFront.Loader
import VyperFront.Outline.Rendering

namespace VyperFront.Command

/-- What a run leaves behind. -/
structure Result where
  status : Nat
  output : String
  errors : String
  deriving DecidableEq, Repr

/-- Why a run ends without a result. -/
inductive Crash where
  | file (error : FileError)
  | escape (escape : Escape)

/-- What a command is given. -/
structure Setting where
  loader : Loader
  surroundings : Surroundings
  input : List UInt8

/-- A run that ends well, with what it writes. -/
def success (output errors : String) : Result := ⟨0, output, errors⟩

/-- A run that ends with the status of an error. -/
def failure (output errors : String) : Result := ⟨1, output, errors⟩

/-- Why a run does not go on. -/
inductive Stop where
  | finished (result : Result)
  | crash (crash : Crash)

/-- What a command works on. -/
def content (s : Setting) (file : Option String) : Except Stop (List UInt8) :=
  match file.filter (· ≠ "-") with
  | none => .ok s.input
  | some path =>
    match s.surroundings.files.read path with
    | .ok content => .ok content
    | .error .missing => .error (.finished (failure "" s!"Error: File '{path}' not found.\n"))
    | .error e => .error (.crash (.file e))

/-- The text that a command works on. -/
def sourceText (s : Setting) (file : Option String) : Except Stop Text := do
  let content ← content s file
  match textOf content with
  | .ok text => .ok text
  | .error e => .error (.crash (.escape (.notUtf8 e content)))

/-- What was loaded as a language. -/
def languageOf (loaded : Loaded) : Except LoadError Language := do
  match Language.ofHandle (← loaded.result) with
  | .ok language => .ok language
  | .error fault => .error (fault.toError none)

/-- The language, with whether remarks are written and what was written. -/
def acquire (s : Setting) : Except Stop (Language × Verbose × String) :=
  let answer := s.loader.load s.surroundings
  match answer.value with
  | .error escape => .error (.crash (.escape escape))
  | .ok loaded =>
    match languageOf loaded with
    | .ok language => .ok (language, answer.loader.verbose, answer.written)
    | .error e => .error (.finished (failure "" (answer.written ++ e.text ++ "\n")))

/-- The parse of the text that a command works on, with what was written. -/
def parseInput (s : Setting) (file : Option String) : Except Stop (Parse × String) := do
  let text ← sourceText s file
  let (language, verbose, written) ← acquire s
  let parse := language.parse (.text text)
  return (parse, written ++ verbose.write parse.remarks)

/-- All errors of a parse, each followed by an empty line. -/
def reports (p : Parse) : String := String.join (p.errors.map fun e => e.text ++ "\n")

def runCheck (s : Setting) : Except Stop Result := do
  let (language, _, written) ← acquire s
  let m := language.metadata
  return success "" (written ++ s!"\x1b[92m\x1b[1mINFO:\x1b[0m Loaded {m.name} grammar " ++
    s!"(ABI {m.abiVersion}, {language.nodeKindCount} node kinds)\n")

def runParse (s : Setting) (file : Option String) : Except Stop Result := do
  let (parse, written) ← parseInput s file
  let output := s!"Parse result: {parse.sexp}\n"
  if parse.root.hasError then
    return failure (output ++ "Parse has errors\n") (written ++ reports parse)
  else return success (output ++ "Parse successful\n") written

def runOutline (s : Setting) (file : Option String) : Except Stop Result := do
  let (parse, written) ← parseInput s file
  if parse.root.hasError then
    return failure "" (written ++ "Error: Parse failed\n" ++ reports parse)
  else return success ((Outline.toJson parse.outline).pretty ++ "\n") written

def runInfo (s : Setting) : Except Stop Result := do
  let (language, _, written) ← acquire s
  return success (language.metadata.toJson.pretty ++ "\n") written

def invoke (s : Setting) (i : Invocation) : Except Stop Result :=
  match i.name with
  | .check => runCheck s
  | .parse => runParse s i.file
  | .outline => runOutline s i.file
  | .info => runInfo s

/-- The result of a run, however it ended. -/
def settle : Except Stop Result → Except Crash Result
  | .ok result | .error (.finished result) => .ok result
  | .error (.crash crash) => .error crash

/-- The program: what its arguments ask for, and what comes of it. -/
def run (s : Setting) (args : List String) : Except Crash Result :=
  match request args with
  | .help topic => .ok (success (help topic) "")
  | .refuse topic message =>
    let caller := match topic with
      | some name => program ++ " " ++ name.text
      | none => program
    .ok ⟨2, "", usage topic ++ s!"{caller}: error: {message}\n"⟩
  | .run verbose invocation =>
    let loader := { s.loader with verbose := s.loader.verbose || verbose }
    settle (invoke { s with loader } invocation)

end VyperFront.Command
