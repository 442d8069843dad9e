import VyperFront.Outline.Declaration

/-! The outline from the leaves up. Each node of a tree becomes a value once the trees below it
have: what declares something becomes a declaration, and what nothing else is known of becomes the
text that it is written as. A node that finds other values than it expects is a misfit. -/

namespace VyperFront.Outline

/-- What a tree becomes. A part of a rule that was left out becomes a gap. -/
inductive Value where
  | text (text : Text)
  | gap
  | list (values : List Value)
  | parameter (parameter : Parameter)
  | declaration (declaration : Declaration)

namespace Value

def text? : Value → Option Text
  | text t => some t
  | _ => none

/-- A text, or none for a gap. -/
def optional? : Value → Option (Option Text)
  | text t => some (some t)
  | gap => some none
  | _ => none

/-- A name alone is a parameter without a type. -/
def parameter? : Value → Option Parameter
  | text name => some ⟨name, none, none⟩
  | parameter p => some p
  | _ => none

def storage? : Value → Option Variable
  | declaration (.storage v) => some v
  | _ => none

def function? : Value → Option Function
  | declaration (.function f) => some f
  | _ => none

/-- Whether the value has fields, as what is declared has. -/
def isRecord : Value → Bool
  | parameter _ | declaration _ => true
  | _ => false

end Value

/-- The declarations among the statements. -/
def fileOf (items : List Value) : Option Value := some (.list (items.filter Value.isRecord))

def blockOf (items : List Value) : Option Value := some (.list items)

/-- The text below, without what stands around it. -/
def textOnly : List Value → Option Value
  | [.text t] => some (.text t)
  | _ => none

/-- The mutability that is all of a body. -/
def wholeMutability? : List Value → Option Mutability
  | [.text t] => Mutability.ofText? t
  | _ => none

def functionOf : List Value → Option Value
  | [.text name, .list parameters, returns, .list body] => do
    let parameters ← parameters.mapM Value.parameter?
    let returns ← returns.optional?
    return .declaration (.function ⟨name, [], parameters, returns, wholeMutability? body⟩)
  | _ => none

/-- The mutability after decorators, one after the other, of which some are mutabilities. -/
def mutabilityAfter (decorators : List Text) (before : Option Mutability) : Option Mutability :=
  decorators.foldl (fun m decorator => (Mutability.ofText? decorator).or m) before

/-- The last of the items is the function, the others are its decorators. -/
def decoratedOf (items : List Value) : Option Value := do
  let f ← (← items.getLast?).function?
  let decorators ← items.dropLast.mapM Value.text?
  let mutability := (mutabilityAfter decorators f.mutability).getD .nonpayable
  return .declaration (.function { f with decorators, mutability := some mutability })

def parametersOf (items : List Value) : Option Value := do
  let parameters ← items.mapM Value.parameter?
  return .list (parameters.map .parameter)

def typedParameterOf : List Value → Option Value
  | [.text name, .text type] => some (.parameter ⟨name, type, none⟩)
  | _ => none

def defaultParameterOf : List Value → Option Value
  | [.text name, .text value] => some (.parameter ⟨name, none, value⟩)
  | _ => none

def typedDefaultParameterOf : List Value → Option Value
  | [.text name, .text type, .text value] => some (.parameter ⟨name, type, value⟩)
  | _ => none

def variableOf : List Value → Option Value
  | [.text target, .text declared, value] => do
    let value ← value.optional?
    let (modifiers, type) := Modifier.split declared
    return .declaration (.storage ⟨target, type, modifiers, value⟩)
  | _ => none

def implementsOf : List Value → Option Value
  | [.text interface] => some (.declaration (.implements interface))
  | _ => none

def eventOf : List Value → Option Value
  | [.text name, .list body] => some (.declaration (.event name (body.filterMap Value.storage?)))
  | _ => none

def structOf : List Value → Option Value
  | [.text name, .list body] => some (.declaration (.struct name (body.filterMap Value.storage?)))
  | _ => none

def flagOf : List Value → Option Value
  | [.text name, .list body] =>
    let members := (body.filterMap Value.text?).filter (· ≠ "pass".toList)
    some (.declaration (.flag name members))
  | _ => none

def interfaceOf : List Value → Option Value
  | [.text name, .list body] =>
    some (.declaration (.interface name (body.filterMap Value.function?)))
  | _ => none

/-- What is made of a node, if it counts for more than what is written. -/
def handler? : NodeKind → Option (List Value → Option Value)
  | .sourceFile => some fileOf
  | .block => some blockOf
  | .expressionStatement | .decorator => some textOnly
  | .functionDefinition => some functionOf
  | .decoratedDefinition => some decoratedOf
  | .parameters => some parametersOf
  | .typedParameter => some typedParameterOf
  | .defaultParameter => some defaultParameterOf
  | .typedDefaultParameter => some typedDefaultParameterOf
  | .annotatedAssignment => some variableOf
  | .implementsStatement => some implementsOf
  | .eventDefinition => some eventOf
  | .structDefinition => some structOf
  | .flagDefinition => some flagOf
  | .interfaceDefinition => some interfaceOf
  | _ => none

/-- A node that finds other values below it than it expects. -/
structure Misfit where
  kind : NodeKind
  deriving DecidableEq, Repr

/-- What a node becomes, from what the trees below it have become. -/
def assemble (source : Text) (kind : NodeKind) (extent : Option Extent) (values : List Value) :
    Except Misfit Value :=
  match handler? kind with
  | none => .ok (.text (written source (.node kind extent [])))
  | some handle =>
    match handle values with
    | some value => .ok value
    | none => .error ⟨kind⟩

mutual

/-- What the tree becomes, if there is no misfit in it. A limit on nested calls is left out. -/
def extract (source : Text) : Tree → Except Misfit Value
  | .leaf token => .ok (.text token.text)
  | .gap => .ok .gap
  | .node kind extent children => do
    assemble source kind extent (← extractAll source children)

def extractAll (source : Text) : List Tree → Except Misfit (List Value)
  | [] => .ok []
  | t :: rest => do
    let value ← extract source t
    return value :: (← extractAll source rest)

end

end VyperFront.Outline
