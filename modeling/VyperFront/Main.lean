import VyperFront.Command.Run

namespace VyperFront.Program

/-- What is found at a path. -/
def look (path : String) : IO (Option Entry) := do
  try
    let content ← IO.FS.readBinFile path
    return some (.file content.toList)
  catch
    | .noFileOrDirectory .. => return none
    | .permissionDenied _ number reason => return some (.unreadable number.toNat reason)
    | _ => return some .directory

/-- The entries at those of the paths that exist. -/
def lookAll (paths : List String) : IO Files := do
  let mut files : Files := []
  for path in paths do
    if let some entry ← look path then files := files.put path entry
  return files

/-- The variables that are set among those that matter. -/
def setVariables : IO Environment := do
  let mut environment : Environment := []
  for name in "HOME" :: Config.debugVariables do
    if let some value ← IO.getEnv name then environment := environment.set name value
  return environment

/-- The file that the arguments name. -/
def fileOf (args : List String) : Option String :=
  match Command.request args with
  | .run _ invocation => invocation.file.filter (· ≠ "-")
  | _ => none

/-- Whether the arguments ask for the standard input. -/
def wantsInput (args : List String) : Bool :=
  match Command.request args with
  | .run _ invocation => invocation.name.takesFile && (fileOf args).isNone
  | _ => false

def artifactName : String := "grammar.lark"

end VyperFront.Program

open VyperFront VyperFront.Program in
/-- Runs the program. -/
def main (args : List String) : IO UInt32 := do
  let environment ← setVariables
  let home := (environment.lookup "HOME").getD ""
  let files ← lookAll (Config.paths home ++ (fileOf args).toList)
  let files := files.put artifactName (.file (Utf8.encode Artifact.shippedText))
  let input ← if wantsInput args then (← IO.getStdin).readBinToEnd else pure .empty
  let setting : Command.Setting :=
    ⟨.start .known false, ⟨files, environment, artifactName⟩, input.toList⟩
  match Command.run setting args with
  | .ok result =>
    (← IO.getStdout).putStr result.output
    (← IO.getStderr).putStr result.errors
    return result.status.toUInt32
  | .error (.file e) =>
    (← IO.getStderr).putStr (e.reason ++ "\n")
    return 1
  | .error (.escape escape) =>
    (← IO.getStderr).putStr (escape.message ++ "\n")
    return 1
