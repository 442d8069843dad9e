import VyperFront.Artifact.Compile

/-! The loader gives out the language. The artifact is compiled when the language is
first asked for; what comes of it, a handle or an error, is kept for every later
time. -/

namespace VyperFront

/-- Where a loader looks: the files, the environment, and which of the files is the
artifact. -/
structure Surroundings where
  files : Files
  environment : Environment
  artifact : String

/-- What loading came to, and which of all the times that it did. -/
structure Loaded where
  serial : Nat
  result : Except LoadError Handle

/-- What a loader compiles by, what it keeps, and whether remarks are written. -/
structure Loader where
  generator : Artifact.Generator
  kept : Option Loaded
  next : Nat
  verbose : Verbose

/-- What asking a loader brings: the answer, the loader afterwards, and what was
written on the way. -/
structure Answer (α : Type) where
  value : α
  loader : Loader
  written : String

namespace Loader

def start (generator : Artifact.Generator) (verbose : Verbose) : Loader :=
  ⟨generator, none, 0, verbose⟩

/-- Makes the loader forget what it keeps. -/
def reset (l : Loader) : Loader := { l with kept := none }

/-- A loader that has a handle already. -/
def holding (generator : Artifact.Generator) (h : Handle) : Loader :=
  ⟨generator, some ⟨0, .ok h⟩, 1, false⟩

def remark (message : String) : Remark := ⟨"binding", message⟩

/-- The home directory. Without the variable there is none: that the system knows the homes of its
users is left out. -/
def home (s : Surroundings) : String := (s.environment.lookup "HOME").getD ""

/-- Compiles the artifact by a configuration, with remarks on what came of it. -/
def compile (g : Artifact.Generator) (s : Surroundings) (c : Config) :
    Except Escape (Except LoadError Handle) × List Remark :=
  match Artifact.compile g (s.files.read s.artifact) c with
  | .error escape => (.error escape, [])
  | .ok (.ok handle) => (.ok (.ok handle), [Artifact.compiled handle])
  | .ok (.error fault) =>
    let error := fault.toError (some s.artifact)
    (.ok (.error error), [remark error.text])

/-- Keeps what loading came to. -/
def keep (l : Loader) (result : Except LoadError Handle) : Loaded × Loader :=
  let loaded : Loaded := ⟨l.next, result⟩
  (loaded, { l with kept := some loaded, next := l.next + 1 })

/-- Loads the configuration and the artifact, and keeps what comes of it. Nothing
is kept if either could not be looked at to the end. -/
def loadFresh (l : Loader) (s : Surroundings) : Answer (Except Escape Loaded) :=
  match Config.load s.files (Config.paths (home s)) s.environment with
  | .error escape => ⟨.error escape, l, ""⟩
  | .ok (config, early) =>
    let early := l.verbose.write early
    let l := { l with verbose := l.verbose || config.debug }
    let (result, late) := compile l.generator s config
    let written := early ++ l.verbose.write (remark s!"Loading grammar from {s.artifact}" :: late)
    match result with
    | .error escape => ⟨.error escape, l, written⟩
    | .ok result =>
      let (loaded, l) := l.keep result
      ⟨.ok loaded, l, written⟩

/-- What loading comes to. It is done once. -/
def load (l : Loader) (s : Surroundings) : Answer (Except Escape Loaded) :=
  match l.kept with
  | some loaded => ⟨.ok loaded, l, ""⟩
  | none => l.loadFresh s

end Loader

end VyperFront
