import VyperFront.Reader.Parse
import VyperFront.Text.CharClass

/-! The outline of a contract: what it declares. Types and values are given as
they are written in the source. A declared type may have modifiers: `public(constant(uint256))` is
a `uint256` with two of them. -/

namespace VyperFront

inductive Modifier where
  | «public» | constant | immutable | transient | indexed
  deriving DecidableEq, Repr

namespace Modifier

def all : List Modifier := [.public, .constant, .immutable, .transient, .indexed]

def text : Modifier → String
  | .public => "public"
  | .constant => "constant"
  | .immutable => "immutable"
  | .transient => "transient"
  | .indexed => "indexed"

/-- What stands between the brackets, if the whole text is the modifier with
something in brackets after it. -/
def argument? (m : Modifier) (t : Text) : Option Text :=
  let opening := m.text.toList ++ ['(']
  if opening.isPrefixOf t then
    let rest := t.drop opening.length
    if rest.getLast? = some ')' then some rest.dropLast else none
  else none

/-- The modifier that the text is a call of, with its argument. -/
def outermost? (t : Text) : Option (Modifier × Text) :=
  all.findSome? fun m => (m.argument? t).map (m, ·)

def splitFrom : (steps : Nat) → Text → List Modifier × Text
  | 0, t => ([], t)
  | steps + 1, t =>
    match outermost? t with
    | none => ([], t)
    | some (m, argument) =>
      let (modifiers, type) := splitFrom steps argument.trim
      (m :: modifiers, type)

/-- The modifiers of a declared type, outermost first, and the type they are put
on. Each step shortens the text. -/
def split (declared : Text) : List Modifier × Text :=
  splitFrom declared.length declared.trim

end Modifier

/-- What a function may do to the contract. -/
inductive Mutability where
  | pure | view | nonpayable | payable
  deriving DecidableEq, Repr

namespace Mutability

def text : Mutability → String
  | .pure => "pure"
  | .view => "view"
  | .nonpayable => "nonpayable"
  | .payable => "payable"

def ofText? (t : Text) : Option Mutability :=
  [.pure, .view, .nonpayable, .payable].find? fun m => m.text.toList == t

end Mutability

namespace Outline

structure Parameter where
  name : Text
  type : Option Text
  value : Option Text

structure Function where
  name : Text
  decorators : List Text
  parameters : List Parameter
  returns : Option Text
  mutability : Option Mutability

structure Variable where
  name : Text
  type : Text
  modifiers : List Modifier
  value : Option Text

inductive Declaration where
  | function (declared : Function)
  | storage (declared : Variable)
  | implements (interface : Text)
  | event (name : Text) (fields : List Variable)
  | struct (name : Text) (fields : List Variable)
  | flag (name : Text) (members : List Text)
  | interface (name : Text) (functions : List Function)

/-- A tree as it is written: the text of a token, the source between the ends of
a node. Redundant brackets around a token are not part of it. -/
def written (source : Text) : Tree → Text
  | .leaf token => token.text
  | .node kind extent _ =>
    match extent with
    | some extent => source.slice extent.start.offset extent.stop.offset
    | none => kind.text.toList
  | .gap => []

/-- A part of a rule as it is written, if it was not left out. -/
def optional (source : Text) : Tree → Option Text
  | .gap => none
  | t => some (written source t)

def parameter (source : Text) : Tree → Parameter
  | .node .typedParameter _ [name, type] => ⟨written source name, written source type, none⟩
  | .node .defaultParameter _ [name, value] => ⟨written source name, none, written source value⟩
  | .node .typedDefaultParameter _ [name, type, value] =>
    ⟨written source name, written source type, written source value⟩
  | t => ⟨written source t, none, none⟩

/-- The parts of a node that were not left out. -/
def parts : Tree → List Tree
  | .node _ _ children => children.filter (!·.isGap)
  | _ => []

/-- Kinds of statements that declare something. -/
def declares : NodeKind → Bool
  | .functionDefinition | .decoratedDefinition | .annotatedAssignment | .implementsStatement
  | .eventDefinition | .structDefinition | .flagDefinition | .interfaceDefinition => true
  | _ => false

/-- A statement that declares nothing, as it is written. An expression counts
without what stands around it. -/
def statement? (source : Text) : Tree → Option Text
  | .node .expressionStatement _ [e] => some (written source e)
  | .node kind extent children =>
    if declares kind then none else some (written source (.node kind extent children))
  | _ => none

/-- The mutability that is all of a body, as it is within an interface. -/
def bodyMutability? (source : Text) (body : Tree) : Option Mutability :=
  match parts body with
  | [only] => (statement? source only).bind Mutability.ofText?
  | _ => none

def function? (source : Text) : Tree → Option Function
  | .node .functionDefinition _ [name, parameters, returns, body] =>
    some ⟨written source name, [], (parts parameters).map (parameter source),
      optional source returns, bodyMutability? source body⟩
  | _ => none

/-- What a decorator says, without the sign in front of it. -/
def decorator? (source : Text) : Tree → Option Text
  | .node .decorator _ [e] => some (written source e)
  | _ => none

/-- A function with its decorators. The last of them that is a mutability counts;
without any the function is not payable. -/
def decorated (source : Text) (decorators : List Tree) (f : Function) : Function :=
  let decorators := decorators.filterMap (decorator? source)
  let mutability := (decorators.filterMap Mutability.ofText?).getLast?.or f.mutability
  { f with decorators, mutability := some (mutability.getD .nonpayable) }

/-- A function definition, with or without decorators. -/
def anyFunction? (source : Text) : Tree → Option Function
  | .node .decoratedDefinition _ children =>
    (children.getLast?.bind (function? source)).map (decorated source children.dropLast)
  | t => function? source t

def declaredVariable? (source : Text) : Tree → Option Variable
  | .node .annotatedAssignment _ [target, declared, value] =>
    let (modifiers, type) := Modifier.split (written source declared)
    some ⟨written source target, type, modifiers, optional source value⟩
  | _ => none

def declaration? (source : Text) : Tree → Option Declaration
  | .node .implementsStatement _ [name] => some (.implements (written source name))
  | .node .eventDefinition _ [name, body] =>
    some (.event (written source name) ((parts body).filterMap (declaredVariable? source)))
  | .node .structDefinition _ [name, body] =>
    some (.struct (written source name) ((parts body).filterMap (declaredVariable? source)))
  | .node .flagDefinition _ [name, body] =>
    let members := (parts body).filterMap (statement? source)
    some (.flag (written source name) (members.filter (· ≠ "pass".toList)))
  | .node .interfaceDefinition _ [name, body] =>
    some (.interface (written source name) ((parts body).filterMap (anyFunction? source)))
  | t =>
    match declaredVariable? source t with
    | some v => some (.storage v)
    | none => (anyFunction? source t).map .function

end Outline

/-- The declarations of a contract in order, or none if it was not understood. -/
def Parse.outline (p : Parse) : List Outline.Declaration :=
  match p.outcome with
  | .ok root => (Outline.parts root).filterMap (Outline.declaration? p.text)
  | .error _ => []

end VyperFront
