import VyperFront.Proofs.Grammar.Derivation
import VyperFront.Tree.Preorder

namespace VyperFront

namespace Terminal

/-- Whether the terminal has a node kind of its own, which its leaves have. -/
def isNamed (t : Terminal) : Bool := (NodeKind.ofTerminal? t).isSome

/-- Whether the terminal can be a leaf: if it has a kind of its own or a fixed text. -/
abbrev canBeLeaf (t : Terminal) : Bool := t.isKept true

theorem not_layout_of_canBeLeaf {t : Terminal} (leaf : t.canBeLeaf = true) :
    t ≠ .newline ∧ t ≠ .indent ∧ t ≠ .dedent := by
  refine ⟨?_, ?_, ?_⟩
  all_goals
    rintro rfl
    cases leaf

end Terminal

namespace Grammar

/-- Whether the slot drops nothing but terminals without a kind, and keeps nothing but
phrases and terminals that can be leaves. -/
private def sifts : Slot → Bool
  | .gap => true
  | .kept (.terminal t) => t.canBeLeaf
  | .kept (.nonterminal _) => true
  | .dropped (.terminal t) => !t.isNamed
  | .dropped (.nonterminal _) => false

set_option maxRecDepth 10000 in
private theorem sifts_checked : (productions.all (·.slots.all sifts)) = true := by
  decide

variable {p : Production} {s : Symbol} {t : Terminal}

private theorem sifts_of_mem {slot : Slot} (member : p ∈ productions) (inside : slot ∈ p.slots) :
    sifts slot = true :=
  List.all_eq_true.mp (List.all_eq_true.mp sifts_checked p member) slot inside

theorem canBeLeaf_of_kept (member : p ∈ productions)
    (inside : .kept (.terminal t) ∈ p.slots) : t.canBeLeaf = true :=
  sifts_of_mem member inside

theorem not_isNamed_of_dropped (member : p ∈ productions) (inside : .dropped s ∈ p.slots) :
    ∃ t, s = .terminal t ∧ t.isNamed = false := by
  have checked := sifts_of_mem member inside
  cases s with
  | nonterminal n => cases checked
  | terminal t => exact ⟨t, rfl, by simpa [sifts] using checked⟩

end Grammar

namespace Derivation

/-- The trees that are kept of derivations in the slots of a production. -/
inductive Sifts : List Slot → List Derivation → List Tree → Prop where
  | nil : Sifts [] [] []
  | gap (rest : Sifts slots parts row) : Sifts (.gap :: slots) parts (.gap :: row)
  | kept (d : Derivation) (rest : Sifts slots parts row) :
    Sifts (.kept d.symbol :: slots) (d :: parts) (d.trees ++ row)
  | dropped (d : Derivation) (rest : Sifts slots parts row) :
    Sifts (.dropped d.symbol :: slots) (d :: parts) row

theorem sifts_keep {slots : List Slot} {parts : List Derivation}
    (body : parts.map symbol = slots.filterMap Slot.symbol?) :
    Sifts slots parts (keep slots (treesOf parts)) := by
  induction slots generalizing parts with
  | nil =>
    obtain rfl := List.map_eq_nil_iff.mp body
    exact .nil
  | cons slot rest ih =>
    cases slot with
    | gap => exact .gap (ih body)
    | kept s =>
      obtain ⟨d, parts, rfl, rfl, later⟩ := List.map_eq_cons_iff.mp body
      exact .kept d (ih later)
    | dropped s =>
      obtain ⟨d, parts, rfl, rfl, later⟩ := List.map_eq_cons_iff.mp body
      exact .dropped d (ih later)

/-- The trees of a phrase are a node over what its production keeps, or just that. -/
theorem trees_phrase (p : Production) (parts : List Derivation) :
    (∃ kind, p.shape = .node kind ∧ (phrase p parts).trees =
        [.node kind (stretch (reaches parts)) (keep p.slots (treesOf parts))]) ∨
      (∀ kind, p.shape ≠ .node kind) ∧ (phrase p parts).trees = keep p.slots (treesOf parts) := by
  rw [trees]
  cases p.shape with
  | node kind => exact .inl ⟨kind, rfl, rfl⟩
  | splice => exact .inr ⟨fun _ => Shape.noConfusion, rfl⟩
  | pass => exact .inr ⟨fun _ => Shape.noConfusion, rfl⟩

theorem leavesOf_trees_phrase (p : Production) (parts : List Derivation) :
    Tree.leavesOf (phrase p parts).trees = Tree.leavesOf (keep p.slots (treesOf parts)) := by
  rcases trees_phrase p parts with ⟨kind, _, same⟩ | ⟨_, same⟩
  · rw [same, Tree.leavesOf_singleton, Tree.leaves_node]
  · rw [same]

/-- Tokens without some of those that have no kind. -/
inductive Thins : List SourceToken → List SourceToken → Prop where
  | nil : Thins [] []
  | keep (t : SourceToken) (rest : Thins leaves tokens) : Thins (t :: leaves) (t :: tokens)
  | drop (unnamed : t.kind.isNamed = false) (rest : Thins leaves tokens) :
    Thins leaves (t :: tokens)

namespace Thins

variable {leaves tokens more others : List SourceToken}

theorem append (first : Thins leaves tokens) (second : Thins more others) :
    Thins (leaves ++ more) (tokens ++ others) := by
  induction first with
  | nil => exact second
  | keep t _ ih => exact .keep t ih
  | drop unnamed _ ih => exact .drop unnamed ih

theorem sublist (thins : Thins leaves tokens) : leaves.Sublist tokens := by
  induction thins with
  | nil => exact .slnil
  | keep t _ ih => exact .cons_cons t ih
  | drop _ _ ih => exact .cons _ ih

theorem filter_eq (thins : Thins leaves tokens) :
    leaves.filter (·.kind.isNamed) = tokens.filter (·.kind.isNamed) := by
  induction thins with
  | nil => rfl
  | keep t _ ih => rw [List.filter_cons, List.filter_cons, ih]
  | drop unnamed _ ih => rw [ih, List.filter_cons_of_neg (by simp [unnamed])]

end Thins

theorem Sifts.thins {slots : List Slot} {parts : List Derivation} {trees : List Tree}
    (sifts : Sifts slots parts trees)
    (unnamed : ∀ s, .dropped s ∈ slots → ∃ t, s = .terminal t ∧ t.isNamed = false)
    (thins : ∀ d ∈ parts, Thins (Tree.leavesOf d.trees) d.yield) :
    Thins (Tree.leavesOf trees) (yields parts) := by
  induction sifts with
  | nil => exact .nil
  | gap _ ih => exact ih (fun s member => unnamed s (List.mem_cons_of_mem _ member)) thins
  | kept d _ ih =>
    obtain ⟨here, later⟩ := List.forall_mem_cons.mp thins
    rw [Tree.leavesOf_append, yields]
    exact here.append (ih (fun s member => unnamed s (List.mem_cons_of_mem _ member)) later)
  | dropped d _ ih =>
    obtain ⟨_, later⟩ := List.forall_mem_cons.mp thins
    have rest := ih (fun s member => unnamed s (List.mem_cons_of_mem _ member)) later
    obtain ⟨t, symbol, unnamed⟩ := unnamed _ List.mem_cons_self
    cases d with
    | phrase p parts => cases symbol
    | token u =>
      obtain rfl := Symbol.terminal.inj symbol
      exact .drop unnamed rest

/-- The leaves are the tokens, without some of those that have no kind. -/
theorem Valid.thins {d : Derivation} (valid : d.Valid) :
    Thins (Tree.leavesOf d.trees) d.yield := by
  induction valid with
  | token t => exact .keep t .nil
  | @phrase p parts member body _ ih =>
    rw [leavesOf_trees_phrase]
    exact (sifts_keep body).thins (fun s inside => Grammar.not_isNamed_of_dropped member inside) ih

/-- The nodes of what is kept are those of the parts that are kept. -/
theorem Sifts.forall_node {slots : List Slot} {parts : List Derivation} {trees : List Tree}
    {holds : Tree → Prop} (sifts : Sifts slots parts trees)
    (kept : ∀ d ∈ parts, .kept d.symbol ∈ slots → ∀ t ∈ Tree.nodesOf d.trees, holds t) :
    ∀ t ∈ Tree.nodesOf trees, holds t := by
  induction sifts with
  | nil => exact nofun
  | gap _ ih =>
    exact ih fun d part inside => kept d part (List.mem_cons_of_mem _ inside)
  | kept d _ ih =>
    obtain ⟨here, later⟩ := List.forall_mem_cons.mp kept
    rw [Tree.nodesOf_append]
    exact List.forall_mem_append.mpr ⟨here List.mem_cons_self,
      ih fun e part inside => later e part (List.mem_cons_of_mem _ inside)⟩
  | dropped d _ ih =>
    obtain ⟨_, later⟩ := List.forall_mem_cons.mp kept
    exact ih fun e part inside => later e part (List.mem_cons_of_mem _ inside)

/-- The nodes of a phrase are those of its kept parts, and the node that it adds. -/
theorem forall_node_phrase {p : Production} {parts : List Derivation} {holds : Tree → Prop}
    (body : parts.map symbol = p.body)
    (node : ∀ kind, p.shape = .node kind →
      holds (.node kind (stretch (reaches parts)) (keep p.slots (treesOf parts))))
    (kept : ∀ d ∈ parts, .kept d.symbol ∈ p.slots → ∀ t ∈ Tree.nodesOf d.trees, holds t) :
    ∀ t ∈ Tree.nodesOf (phrase p parts).trees, holds t := by
  have below := (sifts_keep body).forall_node kept
  rcases trees_phrase p parts with ⟨kind, shape, same⟩ | ⟨_, same⟩
  · rw [same, Tree.nodesOf, Tree.nodesOf, List.append_nil, Tree.nodes]
    exact List.forall_mem_cons.mpr ⟨node kind shape, below⟩
  · rw [same]
    exact below

/-- What holds of all terminals that productions keep holds of all leaves. -/
theorem Valid.forall_leaf {d : Derivation} {holds : Terminal → Prop} (valid : d.Valid)
    (listed : ∀ p ∈ Grammar.productions, ∀ t, .kept (.terminal t) ∈ p.slots → holds t)
    (kept : ∀ t, d.symbol = .terminal t → holds t) :
    ∀ t ∈ Tree.leavesOf d.trees, holds t.kind := by
  have nodes : ∀ t ∈ Tree.nodesOf d.trees, ∀ u ∈ t.token?, holds u.kind := by
    induction valid with
    | token t =>
      rintro _ (_ | ⟨_, ⟨⟩⟩) u ⟨⟩
      exact kept _ rfl
    | @phrase p parts member body _ ih =>
      refine forall_node_phrase body (fun _ _ _ none => nomatch none) fun d part inside => ?_
      refine ih d part fun t terminal => ?_
      rw [terminal] at inside
      exact listed p member t inside
  intro u member
  obtain ⟨t, inside, leaf⟩ := List.mem_filterMap.mp member
  exact nodes t inside u leaf

theorem Valid.canBeLeaf {d : Derivation} (valid : d.Valid)
    (kept : ∀ t, d.symbol = .terminal t → t.canBeLeaf = true) :
    ∀ t ∈ Tree.leavesOf d.trees, t.kind.canBeLeaf = true :=
  valid.forall_leaf (fun _ member _ inside => Grammar.canBeLeaf_of_kept member inside) kept

end Derivation

end VyperFront
