import VyperFront.Proofs.Parser.Derivation
import VyperFront.Proofs.Tree.Column

/-! The children of a node fit the fields of its kind. Fields go by position, and positions
count gaps; past the last field all children stand in it. That the columns of each production
are where the fields of its node want them is checked once over the grammar. -/

namespace VyperFront

namespace NodeKind

variable {kind : NodeKind} {i n : Nat}

theorem fields_of_ofTerminal? {t : Terminal} (named : ofTerminal? t = some kind) :
    kind.fields = [] := by
  unfold ofTerminal? at named
  split at named <;> cases named <;> rfl

theorem field?_eq_getLast? (last : kind.fields.length ≤ n + 1) :
    kind.field? n = kind.fields.getLast? := by
  rw [field?]
  by_cases inside : n < kind.fields.length
  · have place : n = kind.fields.length - 1 := by omega
    rw [List.getLast?_eq_getElem?, ← place, List.getElem?_eq_getElem inside]
  · rw [List.getElem?_eq_none (Nat.le_of_not_lt inside)]

theorem field?_of_le (last : kind.fields.length ≤ i + 1) (le : i ≤ n) :
    kind.field? n = kind.field? i := by
  rw [field?_eq_getLast? last, field?_eq_getLast? (by omega)]

end NodeKind

namespace Tree

/-- The trees from a position on as children, without the gaps. -/
def childrenFrom (kind : NodeKind) (i : Nat) (trees : List Tree) : List (Option Field × Tree) :=
  ((trees.zipIdx i).filter (!·.1.isGap)).map fun (child, n) => (kind.field? n, child)

variable {kind : NodeKind} {i : Nat} {trees more : List Tree} {f : Field}

theorem childrenFrom_append : childrenFrom kind i (trees ++ more) =
    childrenFrom kind i trees ++ childrenFrom kind (i + trees.length) more := by
  rw [childrenFrom, List.zipIdx_append, List.filter_append, List.map_append]
  rfl

theorem childrenFrom_eq_map (solid : ∀ t ∈ trees, t.isGap = false)
    (field : ∀ n, i ≤ n → n < i + trees.length → kind.field? n = some f) :
    childrenFrom kind i trees = trees.map (some f, ·) := by
  induction trees generalizing i with
  | nil => rfl
  | cons t rest ih =>
    obtain ⟨here, later⟩ := List.forall_mem_cons.mp solid
    have first : childrenFrom kind i [t] = [(some f, t)] := by
      simp [childrenFrom, here, field i (Nat.le_refl i) (by simp)]
    rw [← List.singleton_append, childrenFrom_append, first, ih later]
    · rfl
    · intro n le lt
      apply field n
      · simp at le
        omega
      · simp at lt ⊢
        omega

end Tree

namespace FieldRule

/-- Whether the trees of the column can stand in the field. -/
def takes (rule : FieldRule) : Column → Bool
  | .gap => rule.multiplicity = .optional
  | .one a => a.within rule.occupant
  | .many a => (rule.multiplicity = .many || rule.multiplicity = .any) && a.within rule.occupant
  | .unknown => false

variable {rule : FieldRule} {column : Column} {kind : NodeKind} {i : Nat} {trees : List Tree}

theorem ne_unknown_of_takes (rule : FieldRule) (takes : rule.takes column = true) :
    column ≠ .unknown := by
  rintro rfl
  cases takes

theorem takes_spec (takes : rule.takes column = true) (holds : column.Holds trees)
    (field : ∀ n, i ≤ n → n < i + trees.length → kind.field? n = some rule.field) :
    rule.multiplicity.admits (Tree.childrenFrom kind i trees).length = true ∧
      ∀ child ∈ Tree.childrenFrom kind i trees,
        child.1 = some rule.field ∧ rule.occupant.admits child.2 = true := by
  cases column with
  | unknown => cases takes
  | gap =>
    obtain rfl : trees = [.gap] := holds
    have optional : rule.multiplicity = .optional := of_decide_eq_true takes
    rw [optional]
    exact ⟨rfl, nofun⟩
  | one a =>
    obtain ⟨t, rfl, admits⟩ := holds
    have solid : ∀ t' ∈ [t], t'.isGap = false :=
      List.forall_mem_singleton.mpr (Occupant.solid_of_admits admits)
    rw [Tree.childrenFrom_eq_map solid field]
    refine ⟨?_, List.forall_mem_singleton.mpr ⟨rfl, Occupant.admits_of_within takes admits⟩⟩
    cases rule.multiplicity <;> rfl
  | many a =>
    rw [FieldRule.takes, Bool.and_eq_true, Bool.or_eq_true, decide_eq_true_eq,
      decide_eq_true_eq] at takes
    obtain ⟨several, within⟩ := takes
    obtain ⟨nonempty, admits⟩ := holds
    have solid (t : Tree) (member : t ∈ trees) := Occupant.solid_of_admits (admits t member)
    rw [Tree.childrenFrom_eq_map solid field]
    constructor
    · have length := List.length_pos_iff.mpr nonempty
      rcases several with many | any
      · rw [many, List.length_map]
        exact decide_eq_true length
      · rw [any]
        rfl
    · intro child member
      obtain ⟨t, inside, rfl⟩ := List.mem_map.mp member
      exact ⟨rfl, Occupant.admits_of_within within (admits t inside)⟩

end FieldRule

namespace NodeKind

/-- Whether a row of columns fits the rules, one column or none for each, where the first column
begins at a position. What comes after many trees may stand further on, so that it has to be
in the last field. -/
def fills (kind : NodeKind) : Nat → List FieldRule → List Column → Bool
  | _, [], [] => true
  | i, rule :: rules, column :: columns =>
    if rule.takes column then
      kind.field? i = some rule.field && (column.isSingle || kind.fields.length ≤ i + 1) &&
        fills kind (i + 1) rules columns
    else rule.multiplicity.admits 0 && fills kind i rules (column :: columns)
  | _, _, _ => false

variable {kind : NodeKind} {i n : Nat} {rules : List FieldRule} {columns : List Column}
  {trees : List Tree}

theorem fits_of_fills (fills : kind.fills i rules columns = true)
    (row : Column.Row columns trees) (place : i = n ∨ kind.fields.length ≤ i + 1 ∧ i ≤ n) :
    Tree.Fits rules (Tree.childrenFrom kind n trees) := by
  induction rules generalizing i n columns trees with
  | nil =>
    cases row with
    | nil => exact .nil
    | cons here rest => cases fills
  | cons rule rules ih =>
    cases row with
    | nil => cases fills
    | @cons column first columns more here rest =>
      rw [NodeKind.fills] at fills
      split at fills
      · next takes =>
        rw [Bool.and_eq_true, Bool.and_eq_true, Bool.or_eq_true, decide_eq_true_eq,
          decide_eq_true_eq] at fills
        obtain ⟨⟨field, single⟩, later⟩ := fills
        have positive := List.length_pos_iff.mpr (here.ne_nil (rule.ne_unknown_of_takes takes))
        have size : first.length = 1 ∨ kind.fields.length ≤ i + 1 :=
          single.imp_left here.length_eq_one
        -- The position is exact, or it does not matter.
        have fields (m : Nat) (le : n ≤ m) (lt : m < n + first.length) :
            kind.field? m = some rule.field := by
          rw [← field]
          rcases place with rfl | ⟨last, before⟩
          · rcases size with one | last
            · have same : m = i := by omega
              rw [same]
            · exact field?_of_le last le
          · exact field?_of_le last (Nat.le_trans before le)
        obtain ⟨count, each⟩ := FieldRule.takes_spec takes here fields
        rw [Tree.childrenFrom_append]
        exact .cons count each (ih later rest (by omega))
      -- The column is not for this rule: nothing stands in its field.
      · rw [Bool.and_eq_true] at fills
        obtain ⟨skips, later⟩ := fills
        have none : rule.multiplicity.admits ([] : List (Option Field × Tree)).length = true :=
          skips
        exact .cons none nofun (ih later (.cons here rest) place)

end NodeKind

/-- Whether the children of the node that the production makes fit, if they have fields. -/
def Production.isFitting (p : Production) : Bool :=
  match p.shape with
  | .node kind => kind.fields.isEmpty || kind.fills 0 kind.schema p.columns
  | _ => true

private theorem Grammar.fitting_checked : Grammar.productions.all Production.isFitting = true := by
  decide

namespace Derivation

variable {d : Derivation}

/-- The children of all nodes fit the fields of their kinds. -/
theorem Valid.fits (valid : d.Valid) : ∀ t ∈ Tree.nodesOf d.trees, ∀ kind, t.kind? = some kind →
    kind.fields ≠ [] → Tree.Fits kind.schema t.children := by
  induction valid with
  | token t =>
    rintro _ (_ | ⟨_, ⟨⟩⟩) kind named fields
    exact absurd (NodeKind.fields_of_ofTerminal? named) fields
  | @phrase p parts member body valid ih =>
    refine forall_node_phrase body (fun kind shape => ?_) fun d part _ => ih d part
    rintro _ ⟨⟩ fields
    have checked := List.all_eq_true.mp Grammar.fitting_checked p member
    rw [Production.isFitting, shape, Bool.or_eq_true] at checked
    have row : Column.Row p.columns (keep p.slots (treesOf parts)) :=
      (sifts_keep body).row fun d part => (valid d part).column
    rcases checked with none | fills
    · exact absurd (List.isEmpty_iff.mp none) fields
    · exact NodeKind.fits_of_fills fills row (.inl rfl)

end Derivation

/-- The children of each node that has fields stand in them: as many in each as the kind says, of
the kinds that it says, and in its order. -/
theorem Parser.parse_fields {c : Config} {source : Source} {p : Parse}
    (parsed : (Parser.empty.setLanguage (Artifact.language c)).parse source = .ok p)
    (clean : p.errors = []) :
    ∀ t ∈ p.root.nodes, ∀ kind, t.kind? = some kind → kind.fields ≠ [] →
      (∀ child ∈ t.children, child.1.isSome = true) ∧ Tree.Fits kind.schema t.children := by
  obtain ⟨_, d, _, _, derives, trees⟩ := Parser.exists_derivation parsed clean
  intro t member kind named fields
  have inside : t ∈ Tree.nodesOf d.trees := by
    rw [trees]
    exact Tree.mem_nodesOf.mpr ⟨_, List.mem_cons_self, member⟩
  have fits := derives.valid.fits t inside kind named fields
  exact ⟨fits.isSome, fits⟩

theorem Parser.parse_fields_lines : ∃ p : Parse,
    (Parser.empty.setLanguage (Artifact.language .default)).parse (.text Sample.lines) = .ok p ∧
      p.errors = [] ∧ Sample.condition ∈ p.root.nodes ∧
      Sample.condition.kind? = some .ifStatement ∧ NodeKind.ifStatement.fields ≠ [] ∧
      (∀ child ∈ Sample.condition.children, child.1.isSome = true) ∧
      Tree.Fits NodeKind.ifStatement.schema Sample.condition.children := by
  obtain ⟨p, parsed, clean, root, _⟩ := Sample.exists_parse Sample.lines rfl
  have member : Sample.condition ∈ p.root.nodes := by
    rw [root]
    exact List.mem_cons_of_mem _ List.mem_cons_self
  exact ⟨p, parsed, clean, member, rfl, nofun,
    parse_fields parsed clean _ member .ifStatement rfl nofun⟩

end VyperFront
