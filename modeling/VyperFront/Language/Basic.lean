import VyperFront.Diagnostic.LoadError
import VyperFront.Grammar.NodeKind
import VyperFront.Json.Value
import VyperFront.Reader.Parse

/-! Languages: grammars that sources can be parsed by. A handle is what loading a
grammar gives; a language is a handle of a supported version. The metadata of a grammar are what it
is called, and the symbols that trees by it are made of. Node kinds are numbered from zero and
fields from one. -/

namespace VyperFront

structure Metadata where
  name : String
  abiVersion : Int
  /-- The digest of the artifact. -/
  fingerprint : String
  rootSymbol : String
  nodeKinds : List String
  fieldNames : List String
  deriving DecidableEq, Repr

namespace Metadata

/-- The metadata of a Vyper grammar with a version, a fingerprint and node kinds. -/
def vyper (abiVersion : Int) (fingerprint : String) (nodeKinds : List String) : Metadata where
  name := "vyper"
  abiVersion
  fingerprint
  rootSymbol := NodeKind.sourceFile.text
  nodeKinds
  fieldNames := Field.all.map Field.text

/-- The entry with a number, where the first one has the given number. -/
def entryAt? (first : Int) (entries : List String) (id : Int) : Option String :=
  if id < first then none else entries[(id - first).toNat]?

def nodeKindForId? (m : Metadata) (id : Int) : Option String := entryAt? 0 m.nodeKinds id

def idForNodeKind? (m : Metadata) (kind : String) : Option Nat := m.nodeKinds.idxOf? kind

def fieldNameForId? (m : Metadata) (id : Int) : Option String := entryAt? 1 m.fieldNames id

def fieldIdForName? (m : Metadata) (name : String) : Option Nat :=
  (m.fieldNames.idxOf? name).map (· + 1)

def toJson (m : Metadata) : Json :=
  .object
    [("name", .string m.name), ("abi_version", .integer m.abiVersion),
     ("fingerprint", .string m.fingerprint), ("root_symbol", .string m.rootSymbol),
     ("node_kinds", .array (m.nodeKinds.map .string)),
     ("field_names", .array (m.fieldNames.map .string))]

end Metadata

/-- A loaded grammar. -/
structure Handle where
  metadata : Metadata
  reading : Reading

namespace Handle

/-- Handles of artifacts with the same fingerprint are equal. -/
instance : BEq Handle := ⟨fun h k => h.metadata.fingerprint == k.metadata.fingerprint⟩

/-- A handle in one line, with the beginning of its fingerprint. -/
def summary (h : Handle) : String :=
  let digest := String.ofList (h.metadata.fingerprint.toList.take 12)
  s!"<LanguageHandle {h.metadata.name} abi={h.metadata.abiVersion} {digest}>"

end Handle

/-- What parsing goes by. -/
structure Language where
  handle : Handle
  supported : Abi.Supported handle.metadata.abiVersion

namespace Language

/-- The language of a handle, if its version is supported. -/
def ofHandle (h : Handle) : Except LoadFault Language :=
  if supported : Abi.Supported h.metadata.abiVersion then .ok ⟨h, supported⟩
  else .error (.incompatible h.metadata.abiVersion)

/-- Languages are equal if their handles are. -/
instance : BEq Language := ⟨fun l m => l.handle == m.handle⟩

def metadata (l : Language) : Metadata := l.handle.metadata

def nodeKindCount (l : Language) : Nat := l.metadata.nodeKinds.length

def fieldCount (l : Language) : Nat := l.metadata.fieldNames.length

/-- A language in one line. -/
def summary (l : Language) : String :=
  let name := String.ofList (Text.quoted l.metadata.name.toList)
  s!"<Language name={name} abi_version={l.metadata.abiVersion}>"

def parse (l : Language) (source : Source) : Parse := l.handle.reading.parse source

end Language

end VyperFront
