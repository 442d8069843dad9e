import VyperFront.Artifact.Generator
import VyperFront.Config.Source
import VyperFront.Digest.Sha256
import VyperFront.Language.Basic
import VyperFront.Number.Whole
import VyperFront.Text.CharClass

/-! Compiling an artifact: from a file to a handle. The first line of the file is a header that
declares a version. Faults are looked for in a fixed order: the file, its encoding, its header, the
version, and then what the generator says of the whole. -/

namespace VyperFront.Artifact

namespace Header

/-- What follows a fixed text at the front, if it is there. -/
def after? (expected t : Text) : Option Text :=
  if expected.isPrefixOf t then some (t.drop expected.length) else none

/-- The first line without the blanks around it. -/
def line (t : Text) : Text := Text.trim (t.takeWhile (· ≠ '\n'))

/-- The digits of the version in a header line. Blanks may stand before the label
and before the digits, and nothing after them. -/
def digits? (line : Text) : Option Text := do
  let rest ← after? "//".toList line
  let rest ← after? "abi-version:".toList (Text.trimLeft rest)
  let digits := Text.trimLeft rest
  if digits ≠ [] ∧ digits.all isDecimalDigit then some digits else none

/-- The version that an artifact declares, if its first line is a header. -/
def version? (t : Text) : Except TooLong (Option Nat) :=
  match digits? (line t) with
  | some digits => (readWhole digits).map some
  | none => .ok none

end Header

/-- The metadata of the artifact with a version. -/
def metadata (version : Nat) (t : Text) (tables : Tables) : Metadata :=
  .vyper version (Sha256.hexDigest (Utf8.encode t)) tables.nodeKinds

/-- The handle of the artifact with a version. -/
def handle (version : Nat) (t : Text) (tables : Tables) (c : Config) : Handle :=
  ⟨metadata version t tables, ⟨tables.automaton, c.lexer, c.tabWidth⟩⟩

/-- What is said of an artifact that declares a version, or none. -/
def judge (g : Generator) (t : Text) (c : Config) :
    Option Nat → Except Escape (Except LoadFault Handle)
  | none => .ok (.error .noHeader)
  | some version =>
    if ¬ Abi.Supported version then .ok (.error (.incompatible version))
    else
      match g.verdict t c.lexer with
      | .accepted tables => .ok (.ok (handle version t tables c))
      | .refused reason => .ok (.error (.corrupt reason))
      | .raised name message => .error (.raised name message)

/-- What is said of an artifact that was read. -/
def check (g : Generator) (t : Text) (c : Config) : Except Escape (Except LoadFault Handle) :=
  match Header.version? t with
  | .error e => .error (.tooLong e)
  | .ok declared => judge g t c declared

/-- Compiles what was read of an artifact. -/
def compile (g : Generator) (content : Except FileError (List UInt8)) (c : Config) :
    Except Escape (Except LoadFault Handle) :=
  match content with
  | .error e => .ok (.error (.unreadable e.reason))
  | .ok content =>
    match textOf content with
    | .error e => .ok (.error (.notUtf8 e.offset))
    | .ok text => check g text c

/-- What compiling says about the handle that it gives. -/
def compiled (h : Handle) : Remark :=
  ⟨"artifact", s!"Compiled {h.metadata.name} grammar (abi {h.metadata.abiVersion}, " ++
    s!"{h.metadata.nodeKinds.length} node kinds, lexer {h.reading.mode.text})"⟩

/-- The text of the shipped artifact. -/
def shippedText : Text := withHeader shippedHeader

/-- The handle of the shipped artifact. -/
def shipped (c : Config) : Handle := handle Abi.newest shippedText .vyper c

theorem supported_newest : Abi.Supported Abi.newest := by decide

/-- The language of the shipped artifact. -/
def language (c : Config) : Language := ⟨shipped c, supported_newest⟩

end VyperFront.Artifact
