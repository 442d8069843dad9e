import VyperFront.Tree.Preorder

namespace VyperFront

/-- What a child in a field is. -/
inductive Occupant where
  | named
  | of (kind : NodeKind)
  /-- A keyword or punctuation, which has no kind. -/
  | literal
  deriving DecidableEq, Repr

def Occupant.admits : Occupant → Tree → Bool
  | named, t => t.isNamed
  | of kind, t => t.kind? = some kind
  | literal, t => t.token?.isSome && !t.isNamed

/-- How many children stand in a field: `many` are one at least. -/
inductive Multiplicity where
  | one | optional | many | any
  deriving DecidableEq, Repr

def Multiplicity.admits : Multiplicity → Nat → Bool
  | one, n => n = 1
  | optional, n => n ≤ 1
  | many, n => 1 ≤ n
  | any, _ => true

structure FieldRule where
  multiplicity : Multiplicity
  field : Field
  occupant : Occupant
  deriving DecidableEq, Repr

namespace FieldRule

abbrev one := mk .one
abbrev optional := mk .optional
abbrev many := mk .many
abbrev any := mk .any

end FieldRule

namespace NodeKind

/-- The fields of a kind in the order in which they come. A field that goes on with children of
another kind is there twice. -/
def schema : NodeKind → List FieldRule
  | functionDefinition =>
    [.one .name (.of identifier), .one .parameters (.of parameters), .optional .returnType .named,
      .one .body (.of block)]
  | typedParameter => [.one .name (.of identifier), .one .type .named]
  | defaultParameter => [.one .name (.of identifier), .one .value .named]
  | typedDefaultParameter =>
    [.one .name (.of identifier), .one .type .named, .one .value .named]
  | eventDefinition | structDefinition | flagDefinition | interfaceDefinition =>
    [.one .name (.of identifier), .one .body (.of block)]
  | ifStatement =>
    [.one .condition .named, .one .consequence (.of block), .any .alternative (.of elifClause),
      .optional .alternative (.of elseClause)]
  | elifClause => [.one .condition .named, .one .consequence (.of block)]
  | elseClause => [.one .body (.of block)]
  | forStatement =>
    [.one .left (.of identifier), .optional .type .named, .one .right .named,
      .one .body (.of block)]
  | assignment => [.one .left .named, .many .right .named]
  | augmentedAssignment => [.one .left .named, .one .operator .literal, .one .right .named]
  | annotatedAssignment => [.one .left .named, .one .type .named, .optional .right .named]
  | assertStatement => [.one .condition .named, .optional .message .named]
  | logStatement => [.one .event .named]
  | implementsStatement => [.one .interface (.of dottedName)]
  | importFromStatement => [.one .moduleName .named, .many .name .named]
  | aliasedImport => [.one .name (.of dottedName), .one .aliasName (.of identifier)]
  | call => [.one .function .named, .one .arguments (.of argumentList)]
  | externalCall | staticCall => [.one .call .named]
  | attributeAccess => [.one .object .named, .one .attributeName (.of identifier)]
  | subscript => [.one .value .named, .many .subscript .named]
  | keywordArgument => [.one .name (.of identifier), .one .value .named]
  | pair => [.one .key .named, .one .value .named]
  | binaryOperator | booleanOperator =>
    [.one .left .named, .one .operator .literal, .one .right .named]
  | unaryOperator => [.one .operator .literal, .one .argument .named]
  | notOperator => [.one .argument .named]
  | conditionalExpression =>
    [.one .consequence .named, .one .condition .named, .one .alternative .named]
  | _ => []

end NodeKind

namespace Tree

/-- Children that stand in the fields of the rules, one rule after the other. -/
inductive Fits : List FieldRule → List (Option Field × Tree) → Prop where
  | nil : Fits [] []
  | cons (count : rule.multiplicity.admits group.length = true)
    (each : ∀ child ∈ group, child.1 = some rule.field ∧ rule.occupant.admits child.2 = true)
    (rest : Fits rules more) : Fits (rule :: rules) (group ++ more)

theorem Fits.isSome {rules : List FieldRule} {children : List (Option Field × Tree)}
    (fits : Fits rules children) : ∀ child ∈ children, child.1.isSome = true := by
  induction fits with
  | nil => exact nofun
  | cons _ each _ ih =>
    refine List.forall_mem_append.mpr ⟨fun child member => ?_, ih⟩
    rw [(each child member).1, Option.isSome_some]

end Tree

end VyperFront
