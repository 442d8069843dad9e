import Mathlib.Data.List.Forall2
import VyperFront.Outline.Declaration

namespace VyperFront

open Outline

namespace Tree

section Declares

variable (source : Text) (t : Tree)

/-- The source at what stands in a field, if something does. -/
def textAt? (field : Field) : Option Text := (t.childIn? field).map (·.textIn source)

/-- The tree is of one of the kinds. -/
def isOf (kinds : List NodeKind) : Bool := t.kind?.any kinds.contains

/-- The trees below that are of one of the kinds. -/
def childrenOf (kinds : List NodeKind) : List Tree :=
  (t.children.map Prod.snd).filter (·.isOf kinds)

/-- The body that stands in the field for it. -/
def bodyOf : Tree := (t.childIn? .body).getD .gap

/-- What a statement says that declares nothing. Of an expression the source at it counts. -/
def saying? : Option Text :=
  match t.kind? with
  | some .expressionStatement => t.children.head?.map (·.2.textIn source)
  | some kind => if declares kind then none else some (t.textIn source)
  | none => none

/-- What the statements of a body say. -/
def sayings : List Text := (t.children.map Prod.snd).filterMap (saying? source)

/-- A parameter has its name in a field, or is one. -/
structure DeclaresParameter (p : Parameter) : Prop where
  name : p.name = (t.textAt? source .name).getD (t.textIn source)
  type : p.type = t.textAt? source .type
  value : p.value = t.textAt? source .value

structure DeclaresVariable (v : Variable) : Prop where
  kind : t.kind? = some .annotatedAssignment
  name : t.textAt? source .left = some v.name
  type : (t.textAt? source .type).map Modifier.split = some (v.modifiers, v.type)
  value : v.value = t.textAt? source .right

/-- A function without decorators. A body that says nothing but a mutability stands for it. -/
structure DeclaresFunction (f : Function) : Prop where
  kind : t.kind? = some .functionDefinition
  name : t.textAt? source .name = some f.name
  parameters : ∃ ps, t.childIn? .parameters = some ps ∧
    List.Forall₂ (DeclaresParameter source) (ps.children.map Prod.snd) f.parameters
  returns : f.returns = t.textAt? source .returnType
  decorators : f.decorators = []
  mutability : f.mutability = if t.bodyOf.children.length = 1
    then (t.bodyOf.sayings source).head?.bind Mutability.ofText? else none

/-- A decorator says what stands below it. -/
def Decorates (said : Text) : Prop :=
  t.kind? = some .decorator ∧ t.children.map (·.2.textIn source) = [said]

/-- A function with decorators. The last mutability among them counts. -/
structure DeclaresDecorated (f : Function) : Prop where
  kind : t.kind? = some .decoratedDefinition
  parts : ∃ decorators inner plain, t.children.map Prod.snd = decorators ++ [inner] ∧
    List.Forall₂ (Decorates source) decorators f.decorators ∧
    inner.DeclaresFunction source plain ∧
    f = { plain with
      decorators := f.decorators
      mutability := some (((f.decorators.filterMap Mutability.ofText?).getLast?.or
        plain.mutability).getD .nonpayable) }

def DeclaresAnyFunction (f : Function) : Prop :=
  t.DeclaresFunction source f ∨ t.DeclaresDecorated source f

/-- A kind and a name, as definitions have that are no functions. -/
structure Defines (kind : NodeKind) (name : Text) : Prop where
  kind : t.kind? = some kind
  name : t.textAt? source .name = some name

end Declares

/-- The kinds of statements that declare something. -/
def declaring : List NodeKind :=
  [.annotatedAssignment, .implementsStatement, .eventDefinition, .structDefinition,
    .flagDefinition, .interfaceDefinition, .functionDefinition, .decoratedDefinition]

/-- What a tree declares. -/
inductive Declares (source : Text) : Tree → Declaration → Prop where
  | function {t : Tree} {f : Function} (declares : t.DeclaresAnyFunction source f) :
    Declares source t (.function f)
  | storage {t : Tree} {v : Variable} (declares : t.DeclaresVariable source v) :
    Declares source t (.storage v)
  | implements {t : Tree} {name : Text} (kind : t.kind? = some .implementsStatement)
    (interface : t.textAt? source .interface = some name) : Declares source t (.implements name)
  | event {t : Tree} {name : Text} {vs : List Variable}
    (defines : t.Defines source .eventDefinition name)
    (fields : List.Forall₂ (DeclaresVariable source)
      (t.bodyOf.childrenOf [.annotatedAssignment]) vs) : Declares source t (.event name vs)
  | struct {t : Tree} {name : Text} {vs : List Variable}
    (defines : t.Defines source .structDefinition name)
    (fields : List.Forall₂ (DeclaresVariable source)
      (t.bodyOf.childrenOf [.annotatedAssignment]) vs) : Declares source t (.struct name vs)
  | flag {t : Tree} {name : Text} (defines : t.Defines source .flagDefinition name) :
    Declares source t (.flag name ((t.bodyOf.sayings source).filter (· ≠ "pass".toList)))
  | interface {t : Tree} {name : Text} {fs : List Function}
    (defines : t.Defines source .interfaceDefinition name)
    (functions : List.Forall₂ (DeclaresAnyFunction source)
      (t.bodyOf.childrenOf [.functionDefinition, .decoratedDefinition]) fs) :
    Declares source t (.interface name fs)

end Tree

end VyperFront
