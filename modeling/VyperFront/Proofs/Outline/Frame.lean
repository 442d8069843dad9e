import VyperFront.Proofs.Tree.Kept

/-! What the outline takes the trees below a node for. A table says of each phrase which trees it
brings, and another one which rows of them stand below a node; the productions are checked once to
keep to both. -/

namespace VyperFront

/-- What the outline takes a tree for. A `text` is a tree that counts for what is written only. -/
inductive Category where
  | leaf | text | statement | function | parameter | parameters | decorator | block | file
  deriving DecidableEq

namespace Category

def all : List Category :=
  [leaf, text, statement, function, parameter, parameters, decorator, block, file]

theorem mem_all (c : Category) : c ∈ all := by
  cases c <;> decide

/-- Whether all trees of the first category are of the second, too. -/
def within (a b : Category) : Bool :=
  a = b || (a = leaf && (b = text || b = parameter)) || (a = function && b = statement)

theorem within_trans {a b c : Category} (first : a.within b = true) (second : b.within c = true) :
    a.within c = true := by
  have checked : ∀ a ∈ all, ∀ b ∈ all, ∀ c ∈ all, a.within b = true → b.within c = true →
      a.within c = true := by decide
  exact checked a a.mem_all b b.mem_all c c.mem_all first second

end Category

def NodeKind.category : NodeKind → Category
  | .functionDefinition => .function
  | .expressionStatement | .assignment | .augmentedAssignment | .annotatedAssignment
  | .passStatement | .breakStatement | .continueStatement | .returnStatement | .raiseStatement
  | .assertStatement | .logStatement | .importStatement | .importFromStatement
  | .implementsStatement | .ifStatement | .forStatement | .decoratedDefinition | .eventDefinition
  | .structDefinition | .flagDefinition | .interfaceDefinition => .statement
  | .typedParameter | .defaultParameter | .typedDefaultParameter => .parameter
  | .parameters => .parameters
  | .decorator => .decorator
  | .block => .block
  | .sourceFile => .file
  | _ => .text

namespace Tree

/-- The category of a tree that is no gap. -/
def category? : Tree → Option Category
  | leaf _ => some .leaf
  | node kind _ _ => some kind.category
  | gap => none

/-- The tree is of the category. -/
def Counts (t : Tree) (c : Category) : Prop := ∃ a, t.category? = some a ∧ a.within c = true

variable {t : Tree} {c : Category}

theorem Counts.solid (counts : t.Counts c) : t.isGap = false := by
  obtain ⟨a, found, _⟩ := counts
  cases t with
  | gap => cases found
  | leaf | node => rfl

end Tree

/-- What is known of trees that stand one after the other: a gap, one tree of a category, or any
number of them. -/
inductive Seat where
  | gap
  | one (category : Category)
  | many (category : Category)
  deriving DecidableEq

namespace Seat

def Holds : Seat → List Tree → Prop
  | gap, trees => trees = [.gap]
  | one c, trees => ∃ t, trees = [t] ∧ t.Counts c
  | many c, trees => ∀ t ∈ trees, t.Counts c

/-- Trees seat by seat. -/
inductive Row : List Seat → List Tree → Prop where
  | nil : Row [] []
  | cons (here : Holds seat first) (rest : Row seats more) : Row (seat :: seats) (first ++ more)

/-- The category that all trees of a seat have. -/
def category? : Seat → Option Category
  | one c | many c => some c
  | gap => none

/-- Whether a row of seats is as the seat says. -/
def gathers : Seat → List Seat → Bool
  | one c, [one a] => a.within c
  | many c, row => row.all fun seat => seat.category?.any (·.within c)
  | _, _ => false

variable {seat : Seat} {row : List Seat} {trees : List Tree} {c : Category}

theorem Holds.counts (holds : seat.Holds trees) (found : seat.category? = some c) :
    ∀ t ∈ trees, t.Counts c := by
  cases seat with
  | gap => cases found
  | many a =>
    cases found
    exact holds
  | one a =>
    cases found
    obtain ⟨t, rfl, counts⟩ := holds
    exact List.forall_mem_singleton.mpr counts

theorem Row.holds (row : Row seats trees) (gathers : seat.gathers seats = true) :
    seat.Holds trees := by
  cases seat with
  | gap => cases gathers
  | one c =>
    match seats, gathers with
    | [.one a], within =>
      cases row with
      | cons here rest =>
        cases rest
        obtain ⟨t, rfl, b, found, inside⟩ := here
        exact ⟨t, rfl, b, found, Category.within_trans inside within⟩
  | many c =>
    rw [Seat.gathers, List.all_eq_true] at gathers
    induction row with
    | nil => exact nofun
    | cons here _ ih =>
      obtain ⟨inside, later⟩ := List.forall_mem_cons.mp gathers
      obtain ⟨a, found, within⟩ := (Option.any_eq_true _ _).mp inside
      refine List.forall_mem_append.mpr ⟨fun t member => ?_, ih later⟩
      obtain ⟨b, kind, below⟩ := here.counts found t member
      exact ⟨b, kind, Category.within_trans below within⟩

end Seat

namespace Nonterminal

/-- The trees that a phrase brings. -/
def seat : Nonterminal → Seat
  | program | sourceFile => .one .file
  | fileItems | statement | simpleStatements | moreSmallStatements | smallStatement
  | compoundStatement | statements => .many .statement
  | expressionStatement | assignment | augmentedAssignment | annotatedAssignment | passStatement
  | breakStatement | continueStatement | returnStatement | raiseStatement | assertStatement
  | logStatement | implementsStatement | importStatement | importFromStatement | ifStatement
  | forStatement | decoratedDefinition | eventDefinition | structDefinition | flagDefinition
  | interfaceDefinition => .one .statement
  | functionDefinition => .one .function
  | decorators => .many .decorator
  | decorator => .one .decorator
  | parameters => .one .parameters
  | parameterList | moreParameters => .many .parameter
  | parameter => .one .parameter
  | block => .one .block
  | dottedName | testlist | test | orTest | andTest | notTest | comparison | expr | xorExpr
  | andExpr | shiftExpr | arithExpr | term | factor | power | prefixedCall | primary | atom =>
    .one .text
  | _ => .many .text

end Nonterminal

def Symbol.seat : Symbol → Seat
  | terminal _ => .one .leaf
  | nonterminal n => n.seat

/-- The seat of a slot, if it leaves anything in the tree. -/
def Slot.seat? : Slot → Option Seat
  | gap => some .gap
  | kept s => some s.seat
  | dropped _ => none

namespace NodeKind

/-- The rows of trees that can be below a node, if it counts for more than what is written. -/
def rows : NodeKind → List (List Seat)
  | sourceFile => [[], [.many .statement]]
  | block => [[.many .statement]]
  | expressionStatement | decorator | implementsStatement => [[.one .text]]
  | annotatedAssignment =>
    [[.one .text, .one .text, .one .text], [.one .text, .one .text, .gap]]
  | functionDefinition =>
    [[.one .leaf, .one .parameters, .one .text, .one .block],
     [.one .leaf, .one .parameters, .gap, .one .block]]
  | decoratedDefinition => [[.many .decorator, .one .function]]
  | parameters => [[], [.many .parameter]]
  | typedParameter | defaultParameter => [[.one .leaf, .one .text]]
  | typedDefaultParameter => [[.one .leaf, .one .text, .one .text]]
  | eventDefinition | structDefinition | flagDefinition | interfaceDefinition =>
    [[.one .leaf, .one .block]]
  | _ => []

end NodeKind

namespace Production

/-- The seats that the production keeps. -/
def seats (p : Production) : List Seat := p.slots.filterMap Slot.seat?

/-- Whether the production brings what the tables say. -/
def isSeated (p : Production) : Bool :=
  match p.shape with
  | .node kind =>
    p.head.seat.gathers [.one kind.category] && (kind.rows.isEmpty || kind.rows.contains p.seats)
  | _ => p.head.seat.gathers p.seats

end Production

set_option maxRecDepth 10000 in
private theorem Grammar.seats_checked : Grammar.productions.all Production.isSeated = true := by
  decide

/-- The trees below a node are one of the rows for its kind. -/
def Tree.Framed : Tree → Prop
  | .node kind _ trees => kind.rows = [] ∨ ∃ row ∈ kind.rows, Seat.Row row trees
  | _ => True

namespace Derivation

variable {d : Derivation} {slots : List Slot} {parts : List Derivation} {trees : List Tree}

theorem Sifts.seats (sifts : Sifts slots parts trees)
    (seats : ∀ d ∈ parts, d.symbol.seat.Holds d.trees) :
    Seat.Row (slots.filterMap Slot.seat?) trees := by
  induction sifts with
  | nil => exact .nil
  | gap _ ih =>
    have gap : Seat.Holds .gap [.gap] := rfl
    exact .cons gap (ih seats)
  | kept d _ ih =>
    obtain ⟨here, later⟩ := List.forall_mem_cons.mp seats
    exact .cons here (ih later)
  | dropped d _ ih =>
    obtain ⟨_, later⟩ := List.forall_mem_cons.mp seats
    exact ih later

/-- The trees of a symbol are those that the table says. -/
theorem Valid.seat (valid : d.Valid) : d.symbol.seat.Holds d.trees := by
  induction valid with
  | token t => exact ⟨.leaf t, rfl, .leaf, rfl, rfl⟩
  | @phrase p parts member body _ ih =>
    have checked := List.all_eq_true.mp Grammar.seats_checked p member
    have row : Seat.Row p.seats (keep p.slots (treesOf parts)) := (sifts_keep body).seats ih
    rw [Production.isSeated] at checked
    rcases trees_phrase p parts with ⟨kind, shape, same⟩ | ⟨other, same⟩
    · rw [shape, Bool.and_eq_true] at checked
      have node : Seat.Holds (.one kind.category)
          [.node kind (stretch (reaches parts)) (keep p.slots (treesOf parts))] :=
        ⟨_, rfl, kind.category, rfl, by rw [Category.within, decide_eq_true rfl]; rfl⟩
      rw [same]
      exact (Seat.Row.cons node .nil).holds checked.1
    · rw [same]
      split at checked
      · next kind shape => exact absurd shape (other kind)
      · exact row.holds checked

/-- What is below each node of a derivation is one of the rows for its kind. -/
theorem Valid.framed (valid : d.Valid) : ∀ t ∈ Tree.nodesOf d.trees, t.Framed := by
  induction valid with
  | token t =>
    rintro _ (_ | ⟨_, ⟨⟩⟩)
    trivial
  | @phrase p parts member body valid ih =>
    refine forall_node_phrase body (fun kind shape => ?_) fun d part _ => ih d part
    have checked := List.all_eq_true.mp Grammar.seats_checked p member
    rw [Production.isSeated, shape, Bool.and_eq_true, Bool.or_eq_true, List.isEmpty_iff,
      List.contains_iff_mem] at checked
    refine checked.2.imp_right fun listed => ⟨p.seats, listed, ?_⟩
    exact (sifts_keep body).seats fun d part => (valid d part).seat

end Derivation

end VyperFront
