import VyperFront.Proofs.Tree.Kept
import VyperFront.Tree.Schema

namespace VyperFront

namespace Occupant

/-- Whether all that the first admits is admitted by the second. -/
def within (a b : Occupant) : Bool := a = b || (b = named && a ≠ literal)

variable {a b : Occupant} {t : Tree}

theorem admits_of_within (within : a.within b = true) (admits : a.admits t = true) :
    b.admits t = true := by
  rw [Occupant.within, Bool.or_eq_true, Bool.and_eq_true] at within
  rcases within with same | ⟨named, other⟩
  · exact of_decide_eq_true same ▸ admits
  · obtain rfl := of_decide_eq_true named
    cases a with
    | named => exact admits
    | of kind =>
      rw [Occupant.admits, Tree.isNamed, of_decide_eq_true admits]
      rfl
    | literal => cases other

theorem solid_of_admits (admits : a.admits t = true) : t.isGap = false := by
  cases t with
  | gap => cases a <;> cases admits
  | leaf token => rfl
  | node kind extent trees => rfl

end Occupant

/-- What is known of the trees of a symbol. Of many trees there is one at least. -/
inductive Column where
  | gap
  | one (occupant : Occupant)
  | many (occupant : Occupant)
  | unknown
  deriving DecidableEq

namespace Column

def Holds : Column → List Tree → Prop
  | gap, trees => trees = [.gap]
  | one o, trees => ∃ t, trees = [t] ∧ o.admits t = true
  | many o, trees => trees ≠ [] ∧ ∀ t ∈ trees, o.admits t = true
  | unknown, _ => True

/-- Trees column by column. -/
inductive Row : List Column → List Tree → Prop where
  | nil : Row [] []
  | cons (here : Holds column first) (rest : Row columns more) :
    Row (column :: columns) (first ++ more)

/-- The occupant that a column of trees has. -/
def occupant? : Column → Option Occupant
  | one o | many o => some o
  | _ => none

/-- Whether a row of columns is as the column says. -/
def gathers : Column → List Column → Bool
  | unknown, _ => true
  | one o, [one a] => a.within o
  | many o, row => !row.isEmpty && row.all fun column => column.occupant?.any (·.within o)
  | _, _ => false

variable {column : Column} {row : List Column} {trees : List Tree} {o : Occupant}

theorem Holds.admits (holds : column.Holds trees) (found : column.occupant? = some o) :
    trees ≠ [] ∧ ∀ t ∈ trees, o.admits t = true := by
  cases column with
  | gap => cases found
  | unknown => cases found
  | many a =>
    cases found
    exact holds
  | one a =>
    cases found
    obtain ⟨t, rfl, admits⟩ := holds
    exact ⟨List.cons_ne_nil t [], List.forall_mem_singleton.mpr admits⟩

theorem Row.admits (standing : Row row trees)
    (within : ∀ column ∈ row, ∃ a ∈ column.occupant?, a.within o = true) :
    (row ≠ [] → trees ≠ []) ∧ ∀ t ∈ trees, o.admits t = true := by
  induction standing with
  | nil => exact ⟨fun none => absurd rfl none, nofun⟩
  | cons here _ ih =>
    obtain ⟨⟨a, found, inside⟩, later⟩ := List.forall_mem_cons.mp within
    obtain ⟨nonempty, admits⟩ := here.admits found
    exact ⟨fun _ => List.append_ne_nil_of_left_ne_nil nonempty _, List.forall_mem_append.mpr
      ⟨fun t member => Occupant.admits_of_within inside (admits t member), (ih later).2⟩⟩

theorem Row.holds (standing : Row row trees) (gathers : column.gathers row = true) :
    column.Holds trees := by
  cases column with
  | unknown => trivial
  | gap => cases gathers
  | many o =>
    rw [Column.gathers, Bool.and_eq_true, Bool.not_eq_true', List.isEmpty_eq_false_iff,
      List.all_eq_true] at gathers
    obtain ⟨nonempty, within⟩ := gathers
    obtain ⟨some, admits⟩ := standing.admits fun column member =>
      (Option.any_eq_true _ _).mp (within column member)
    exact ⟨some nonempty, admits⟩
  | one o =>
    match row, gathers with
    | [.one a], within =>
      cases standing with
      | cons here rest =>
        cases rest with
        | nil =>
          obtain ⟨t, rfl, admits⟩ := here
          exact ⟨t, rfl, Occupant.admits_of_within within admits⟩

/-- Whether the column has one tree, or a gap for it. -/
def isSingle : Column → Bool
  | gap | one _ => true
  | _ => false

theorem Holds.length_eq_one (holds : column.Holds trees) (single : column.isSingle = true) :
    trees.length = 1 := by
  cases column with
  | gap => exact congrArg List.length holds
  | one o =>
    obtain ⟨t, rfl, _⟩ := holds
    rfl
  | many o => cases single
  | unknown => cases single

theorem Holds.ne_nil (holds : column.Holds trees) (known : column ≠ .unknown) : trees ≠ [] := by
  cases column with
  | gap =>
    obtain rfl : trees = [.gap] := holds
    exact List.cons_ne_nil _ _
  | one o => exact (holds.admits rfl).1
  | many o => exact holds.1
  | unknown => exact absurd rfl known

end Column

namespace Nonterminal

/-- The trees that a phrase brings. Lists of statements, items and parameters can be made of
anything: no field holds them. -/
def column : Nonterminal → Column
  | block => .one (.of .block)
  | parameters => .one (.of .parameters)
  | argumentList => .one (.of .argumentList)
  | dottedName => .one (.of .dottedName)
  | elifClause => .one (.of .elifClause)
  | elifClauses => .many (.of .elifClause)
  | elseClause => .one (.of .elseClause)
  | importSource | relativeImport | wildcardImport | importName | aliasedImport => .one .named
  | importList | moreImportNames => .many .named
  | testlist | test | orTest | andTest | notTest | comparison | expr | xorExpr | andExpr | shiftExpr
  | arithExpr | term | factor | power | prefixedCall | primary | atom => .one .named
  | assignedValues | expressionList | moreTests => .many .named
  | augmentedOperator | orOperator | andOperator | bitOrOperator | bitXorOperator | bitAndOperator
  | shiftOperator | addOperator | multiplyOperator | unaryOperator | powerOperator => .one .literal
  | _ => .unknown

end Nonterminal

/-- A terminal stands for its leaf. -/
def Symbol.column : Symbol → Column
  | terminal t => .one (((NodeKind.ofTerminal? t).map Occupant.of).getD .literal)
  | nonterminal n => n.column

/-- The column of a slot, if it leaves anything in the tree. -/
def Slot.column? : Slot → Option Column
  | gap => some .gap
  | kept s => some s.column
  | dropped _ => none

namespace Production

/-- The columns that the production keeps. -/
def columns (p : Production) : List Column := p.slots.filterMap Slot.column?

/-- Whether the production brings what the table says of its phrase. -/
def keepsColumn (p : Production) : Bool :=
  match p.shape with
  | .node kind => p.head.column.gathers [.one (.of kind)]
  | _ => p.head.column.gathers p.columns

end Production

set_option maxRecDepth 10000 in
private theorem Grammar.columns_checked : Grammar.productions.all Production.keepsColumn = true := by
  decide

namespace Derivation

open Column (Row)

variable {d : Derivation} {slots : List Slot} {parts : List Derivation} {trees : List Tree}

theorem Sifts.row (sifts : Sifts slots parts trees)
    (columns : ∀ d ∈ parts, d.symbol.column.Holds d.trees) :
    Row (slots.filterMap Slot.column?) trees := by
  induction sifts with
  | nil => exact .nil
  | gap _ ih =>
    have gap : Column.Holds .gap [.gap] := rfl
    exact .cons gap (ih columns)
  | kept d _ ih =>
    obtain ⟨here, later⟩ := List.forall_mem_cons.mp columns
    exact .cons here (ih later)
  | dropped d _ ih =>
    obtain ⟨_, later⟩ := List.forall_mem_cons.mp columns
    exact ih later

theorem column_token (t : SourceToken) : (token t).symbol.column.Holds (token t).trees := by
  refine ⟨.leaf t, rfl, ?_⟩
  cases kind : NodeKind.ofTerminal? t.kind with
  | none =>
    have unnamed : (Tree.leaf t).isNamed = false := congrArg Option.isSome kind
    simp [Occupant.admits, Tree.token?, unnamed]
  | some k => exact decide_eq_true kind

/-- The trees of a symbol are those that the table says. -/
theorem Valid.column (valid : d.Valid) : d.symbol.column.Holds d.trees := by
  induction valid with
  | token t => exact column_token t
  | @phrase p parts member body _ ih =>
    have checked := List.all_eq_true.mp Grammar.columns_checked p member
    have row : Row p.columns (keep p.slots (treesOf parts)) := (sifts_keep body).row ih
    rw [Production.keepsColumn] at checked
    rcases trees_phrase p parts with ⟨kind, shape, same⟩ | ⟨other, same⟩
    · rw [shape] at checked
      have node : Column.Holds (.one (.of kind))
          [.node kind (stretch (reaches parts)) (keep p.slots (treesOf parts))] :=
        ⟨_, rfl, decide_eq_true rfl⟩
      rw [same]
      exact (Row.cons node .nil).holds checked
    · rw [same]
      split at checked
      · next kind shape => exact absurd shape (other kind)
      · exact row.holds checked

end Derivation

end VyperFront
