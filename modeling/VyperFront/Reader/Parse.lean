import VyperFront.Reader.Basic
import VyperFront.Text.Utf8
import VyperFront.Trace
import VyperFront.Tree.Basic

namespace VyperFront

namespace Layout.Note

def message : Layout.Note → String
  | found width current => s!"Found content at indent {width}, current indent {current}"
  | opened level => s!"Emitting INDENT (new level: {level})"
  | closed back => s!"Emitting DEDENT (back to level: {back})"
  | closedAtEnd remaining => s!"Emitting DEDENT at EOF (remaining: {remaining})"

def remark (n : Layout.Note) : Remark := ⟨"scanner", n.message⟩

end Layout.Note

/-- What comes of reading a source. -/
structure Parse where
  text : Text
  outcome : Except SyntaxError Tree
  remarks : List Remark

namespace Parse

/-- The tree, or a node that stands for a source that was not understood. -/
def root (p : Parse) : Tree :=
  match p.outcome with
  | .ok tree => tree
  | .error _ => .node .error none []

def errors (p : Parse) : List SyntaxError :=
  match p.outcome with
  | .ok _ => []
  | .error e => [e]

def sexp (p : Parse) : String := p.root.sexp

/-- The parse in one line. -/
def summary (p : Parse) : String :=
  s!"<Tree root={p.root.type} errors={p.errors.length}>"

end Parse

/-- A source as it is given: as text or as bytes. -/
inductive Source where
  | text (text : Text)
  | bytes (bytes : List UInt8)

namespace Reading

/-- The text that is read for a source. The last line is ended if it is not. -/
def ended (source : Text) : Text :=
  if source.endsLine then source else source ++ ['\n']

/-- The tree that a whole program brings. -/
def treeOf (f : Fragment) : Tree := f.trees.headD (.node .sourceFile none [])

def parseText (r : Reading) (source : Text) : Parse :=
  let text := ended source
  let intro : Remark := ⟨"parser", s!"Parsing {source.length} characters"⟩
  match r.read text with
  | .ok (fragment, notes) =>
    ⟨source, .ok (treeOf fragment), intro :: notes.reverse.map (·.remark)⟩
  | .error stop =>
    let e := stop.failure.toError source text
    ⟨source, .error e, intro :: stop.notes.reverse.map (·.remark) ++
      [⟨"parser", s!"Parse failed: {e.message}"⟩]⟩

/-- The error that bytes are no UTF-8. Line and column count bytes. -/
def encodingError (bytes : List UInt8) (e : Utf8.Error) : SyntaxError :=
  let before := bytes.take e.offset
  let isBreak : UInt8 → Bool := (· == 10)
  let inLine := (before.reverse.takeWhile (!isBreak ·)).length
  let context := (bytes.drop (e.offset - inLine)).takeWhile (!isBreak ·)
  { message := s!"Invalid UTF-8 at byte {e.offset}"
    line := some (before.countP isBreak + 1 : Nat)
    column := some (inLine + 1 : Nat)
    context := some (String.ofList (Utf8.decodeLossy context).trim)
    suggestion := some "Save the file as UTF-8" }

/-- Reads a source to a tree, or to the one error that it has. -/
def parse (r : Reading) : Source → Parse
  | .text source => r.parseText source
  | .bytes bytes =>
    match Utf8.decode bytes with
    | .ok source => r.parseText source
    | .error e =>
      let error := encodingError bytes e
      ⟨Utf8.decodeLossy bytes, .error error,
        [⟨"parser", s!"Parse failed: {error.message}"⟩]⟩

end Reading

end VyperFront
