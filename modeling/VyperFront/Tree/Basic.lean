import VyperFront.Grammar.NodeKind
import VyperFront.Lexer

/-! Syntax trees. In writing, a tree is an S-expression of the named nodes, each child after the
name of its field. -/

namespace VyperFront

/-- A syntax tree. Leaves are tokens; a gap stands for an optional part of a rule
that was left out, so that the other children keep their positions. -/
inductive Tree where
  | leaf (token : SourceToken)
  | node (kind : NodeKind) (extent : Option Extent) (children : List Tree)
  | gap
  deriving Repr, Inhabited

namespace Tree

def isGap : Tree → Bool
  | gap => true
  | _ => false

/-- The kind of a named tree: of a node, or of a leaf whose token has one. -/
def kind? : Tree → Option NodeKind
  | leaf token => NodeKind.ofTerminal? token.kind
  | node kind _ _ => some kind
  | gap => none

def isNamed (t : Tree) : Bool := t.kind?.isSome

/-- The name of the kind, or the text of a token that has none. -/
def type : Tree → String
  | leaf token =>
    match NodeKind.ofTerminal? token.kind with
    | some kind => kind.text
    | none => String.ofList token.text
  | node kind _ _ => kind.text
  | gap => ""

/-- The children with their fields, without the gaps. Gaps count for positions. -/
def children : Tree → List (Option Field × Tree)
  | node kind _ children =>
    (children.zipIdx.filter (!·.1.isGap)).map fun (child, i) => (kind.field? i, child)
  | _ => []

def namedChildren (t : Tree) : List (Option Field × Tree) :=
  t.children.filter (·.2.isNamed)

/-- The children that stand in a field. -/
def childrenIn (t : Tree) (field : Field) : List Tree :=
  (t.children.filter (·.1 == some field)).map (·.2)

/-- The first child that stands in a field. -/
def childIn? (t : Tree) (field : Field) : Option Tree :=
  (t.children.find? (·.1 == some field)).map (·.2)

/-- Where the tree was found. A node without tokens was found nowhere. -/
def extent? : Tree → Option Extent
  | leaf token => some token.place
  | node _ extent _ => extent
  | gap => none

mutual

/-- Whether the tree or a part of it stands for text that was not understood. Trees may be nested
to any depth, here and below: a limit on nested calls is left out. -/
def hasError : Tree → Bool
  | node kind _ children => kind == .error || anyError children
  | _ => false

def anyError : List Tree → Bool
  | [] => false
  | t :: rest => t.hasError || anyError rest

end

def startOffset (t : Tree) : Nat :=
  match t.extent? with
  | some extent => extent.start.offset
  | none => 0

/-- The offset past the tree in a text of the given length. A node cannot go
beyond the text; a tree that was not understood takes up all of it. -/
def endOffset (length : Nat) : Tree → Nat
  | leaf token => token.place.stop.offset
  | node kind extent _ =>
    match extent with
    | some extent => min extent.stop.offset length
    | none => if kind = .error then length else 0
  | gap => 0

/-- The row and column of the first character, counted from zero. -/
def startPoint (t : Tree) : Nat × Nat :=
  match t.extent? with
  | some extent => (extent.start.line - 1, extent.start.column - 1)
  | none => (0, 0)

/-- The row and column past the last character, counted from zero. -/
def endPoint (t : Tree) : Nat × Nat :=
  match t.extent? with
  | some extent => (extent.stop.line - 1, extent.stop.column - 1)
  | none => (0, 0)

/-- The part of the source that the tree was found in. -/
def textIn (source : Text) (t : Tree) : Text :=
  source.slice t.startOffset (t.endOffset source.length)

/-- A tree in one line: its kind and where it starts. -/
def summary (t : Tree) : String :=
  let (row, column) := t.startPoint
  s!"<Node type={t.type} start_point=({row}, {column})>"

/-- A child after its field. -/
def labelled (field : Option Field) (rendered : String) : String :=
  match field with
  | some field => field.text ++ ": " ++ rendered
  | none => rendered

/-- A kind with its parts. -/
def form (type : String) (parts : List String) : String :=
  if parts.isEmpty then "(" ++ type ++ ")"
  else "(" ++ type ++ " " ++ " ".intercalate parts ++ ")"

mutual

/-- The S-expression of the tree, nested to any depth. -/
def sexp : Tree → String
  | leaf token => form (leaf token).type []
  | node kind _ children => form kind.text (sexps kind 0 children)
  | gap => ""

/-- The named trees of a list of children, from a position on. -/
def sexps (kind : NodeKind) (position : Nat) : List Tree → List String
  | [] => []
  | t :: rest =>
    if t.isNamed then labelled (kind.field? position) t.sexp :: sexps kind (position + 1) rest
    else sexps kind (position + 1) rest

end

end Tree

end VyperFront
