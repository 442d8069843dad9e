import VyperFront.Abi

namespace VyperFront

/-- Why a grammar could not be loaded. -/
inductive LoadError.Kind where
  | artifactMissing
  | artifactCorrupt
  | incompatibleVersion
  deriving DecidableEq, Repr

namespace LoadError.Kind

def text : LoadError.Kind → String
  | artifactMissing => "ArtifactMissing"
  | artifactCorrupt => "ArtifactCorrupt"
  | incompatibleVersion => "IncompatibleVersion"

/-- The kind with a name. -/
def ofText? (name : String) : Option LoadError.Kind :=
  [artifactMissing, artifactCorrupt, incompatibleVersion].find? (·.text == name)

/-- Says that something, as it is shown, names no kind. -/
def refusal (shown : String) : String := s!"{shown} is not a valid ErrorKind"

end LoadError.Kind

structure LoadError where
  message : String
  kind : LoadError.Kind
  path : Option String
  grammar : String
  deriving DecidableEq, Repr

namespace LoadError

/-- The grammar that errors are about unless they say otherwise. -/
def defaultGrammar : String := "Vyper"

/-- An error of a kind, without an artifact. -/
def ofMessage (message : String) (kind : Kind) : LoadError :=
  ⟨message, kind, none, defaultGrammar⟩

/-- The error in words, with the artifact that it is about. -/
def text (e : LoadError) : String :=
  let place := match e.path.filter (· ≠ "") with
    | some path => s!" ({path})"
    | none => ""
  s!"Error loading {e.grammar} grammar: {e.message}{place}"

end LoadError

/-- Why an artifact or a value does not give a language. -/
inductive LoadFault where
  /-- The artifact cannot be read, with the reason. -/
  | unreadable (reason : String)
  /-- The artifact is no UTF-8 from a byte on. -/
  | notUtf8 (offset : Nat)
  | noHeader
  | incompatible (version : Int)
  /-- The artifact is no grammar, with the reason if one is given. -/
  | corrupt (reason : Option String)
  /-- Something else than a handle, with its type. -/
  | notAHandle (type : String)
  deriving DecidableEq, Repr

namespace LoadFault

def kind : LoadFault → LoadError.Kind
  | unreadable _ | notAHandle _ => .artifactMissing
  | notUtf8 _ | noHeader | corrupt _ => .artifactCorrupt
  | incompatible _ => .incompatibleVersion

def message : LoadFault → String
  | unreadable reason => s!"grammar artifact not found: {reason}"
  | notUtf8 offset => s!"grammar artifact is not valid UTF-8 (byte {offset})"
  | noHeader => "grammar artifact has no '// abi-version: N' header"
  | incompatible version =>
    s!"incompatible ABI version {version}, expected {Abi.oldest} through {Abi.newest}"
  | corrupt none => "grammar artifact is corrupt"
  | corrupt (some reason) => s!"grammar artifact is corrupt: {reason}"
  | notAHandle type => s!"expected a language handle, got {type}"

/-- The error about an artifact, if it is about one. -/
def toError (f : LoadFault) (path : Option String) : LoadError :=
  ⟨f.message, f.kind, path, LoadError.defaultGrammar⟩

end LoadFault

end VyperFront
