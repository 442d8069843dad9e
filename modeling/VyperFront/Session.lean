import VyperFront.Command.Run

/-! Sessions: a loader in surroundings that change. Between the times that it is asked for
the language, files come and go, variables are set, and it is made to forget. -/

namespace VyperFront

structure Session where
  loader : Loader
  surroundings : Surroundings

namespace Session

/-- What a loader can be asked for: what loading comes to, the handle, or the parse of a
source. -/
inductive Ask where
  | load
  | get
  | parse (source : Source)

inductive Step where
  /-- Puts an entry at a path. -/
  | write (path : String) (entry : Entry)
  | remove (path : String)
  | setVariable (name value : String)
  | reset
  | ask (ask : Ask)

/-- What a step comes to. -/
inductive Response where
  | done
  | refused (error : FileError)
  | escaped (escape : Escape)
  | loaded (loaded : Loaded)
  | handle (handle : Handle)
  | failed (error : LoadError)
  | parsed (parse : Parse)

/-- What a step leaves behind: the response, the session afterwards, and what was
written. -/
structure Turn where
  response : Response
  session : Session
  written : String

/-- A session in which nothing was asked for yet. -/
def start (generator : Artifact.Generator) (verbose : Verbose) (s : Surroundings) : Session :=
  ⟨.start generator verbose, s⟩

def withFiles (s : Session) (files : Files) : Session :=
  { s with surroundings := { s.surroundings with files } }

/-- No file is written where a directory is. -/
def write (s : Session) (path : String) (entry : Entry) : Turn :=
  let files := s.surroundings.files
  match entry, files.find? path with
  | .file _, some .directory => ⟨.refused .isDirectory, s, ""⟩
  | _, _ => ⟨.done, s.withFiles (files.put path entry), ""⟩

def remove (s : Session) (path : String) : Turn :=
  let files := s.surroundings.files
  match files.find? path with
  | none => ⟨.refused .missing, s, ""⟩
  | some .directory => ⟨.refused .isDirectory, s, ""⟩
  | some _ => ⟨.done, s.withFiles (files.remove path), ""⟩

def setVariable (s : Session) (name value : String) : Turn :=
  let environment := s.surroundings.environment.set name value
  ⟨.done, { s with surroundings := { s.surroundings with environment } }, ""⟩

def reset (s : Session) : Turn := ⟨.done, { s with loader := s.loader.reset }, ""⟩

/-- The response to what is asked for, given what was loaded, with remarks on the way. -/
def Ask.respond (loaded : Loaded) : Ask → Response × List Remark
  | load => (.loaded loaded, [])
  | get =>
    match loaded.result with
    | .ok h => (.handle h, [])
    | .error e => (.failed e, [])
  | parse source =>
    match Command.languageOf loaded with
    | .ok l =>
      let parse := l.parse source
      (.parsed parse, parse.remarks)
    | .error e => (.failed e, [])

/-- Whatever is asked for, the loader loads first. -/
def ask (s : Session) (a : Ask) : Turn :=
  let answer := s.loader.load s.surroundings
  let s := { s with loader := answer.loader }
  match answer.value with
  | .error escape => ⟨.escaped escape, s, answer.written⟩
  | .ok loaded =>
    let (response, remarks) := a.respond loaded
    ⟨response, s, answer.written ++ s.loader.verbose.write remarks⟩

def step (s : Session) : Step → Turn
  | .write path entry => s.write path entry
  | .remove path => s.remove path
  | .setVariable name value => s.setVariable name value
  | .reset => s.reset
  | .ask a => s.ask a

/-- The session after some steps. -/
def after (s : Session) (steps : List Step) : Session :=
  steps.foldl (fun s step => (s.step step).session) s

end Session

end VyperFront
