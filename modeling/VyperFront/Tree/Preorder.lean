import VyperFront.Tree.Basic

/-! The nodes of a tree in preorder. Gaps are no nodes: they only keep positions. -/

namespace VyperFront.Tree

mutual

/-- The tree and the trees in it, each before its children. -/
def nodes : Tree → List Tree
  | leaf token => [leaf token]
  | node kind extent children => node kind extent children :: nodesOf children
  | gap => []

def nodesOf : List Tree → List Tree
  | [] => []
  | t :: rest => t.nodes ++ nodesOf rest

end

/-- The token of a leaf. -/
def token? : Tree → Option SourceToken
  | leaf token => some token
  | _ => none

/-- The tokens of the leaves in preorder. -/
def leaves (t : Tree) : List SourceToken := t.nodes.filterMap token?

def leavesOf (trees : List Tree) : List SourceToken := (nodesOf trees).filterMap token?

variable {s t u : Tree} {kind : NodeKind} {extent : Option Extent} {trees more : List Tree}
  {child : Option Field × Tree} {token : SourceToken}

/-- What holds of a node if it holds of all trees below it holds of all trees. -/
theorem induct {motive : Tree → Prop} (leaf : ∀ token, motive (leaf token)) (gap : motive gap)
    (node : ∀ kind extent trees, (∀ t ∈ trees, motive t) → motive (node kind extent trees))
    (t : Tree) : motive t := by
  refine @Tree.rec motive (fun trees => ∀ t ∈ trees, motive t) leaf node gap nofun ?_ t
  intro first rest here later
  exact List.forall_mem_cons.mpr ⟨here, later⟩

theorem nodesOf_eq_flatMap (trees : List Tree) : nodesOf trees = trees.flatMap nodes := by
  induction trees with
  | nil => rfl
  | cons t rest ih => rw [nodesOf, ih, List.flatMap_cons]

@[simp] theorem nodesOf_append : nodesOf (trees ++ more) = nodesOf trees ++ nodesOf more := by
  simp [nodesOf_eq_flatMap]

@[simp] theorem leavesOf_append : leavesOf (trees ++ more) = leavesOf trees ++ leavesOf more := by
  rw [leavesOf, nodesOf_append, List.filterMap_append]
  rfl

@[simp] theorem leavesOf_singleton (t : Tree) : leavesOf [t] = t.leaves := by
  rw [leavesOf, nodesOf, nodesOf, List.append_nil]
  rfl

theorem leaves_node : (node kind extent trees).leaves = leavesOf trees := rfl

theorem mem_leaves : token ∈ t.leaves ↔ leaf token ∈ t.nodes := by
  rw [leaves, List.mem_filterMap]
  constructor
  · rintro ⟨s, member, found⟩
    cases s with
    | leaf other =>
      cases found
      exact member
    | node kind extent trees => cases found
    | gap => cases found
  · exact fun member => ⟨_, member, rfl⟩

theorem mem_nodesOf : t ∈ nodesOf trees ↔ ∃ s ∈ trees, t ∈ s.nodes := by
  rw [nodesOf_eq_flatMap, List.mem_flatMap]

theorem mem_nodes_self (solid : t.isGap = false) : t ∈ t.nodes := by
  cases t with
  | leaf token => exact List.mem_singleton_self _
  | node kind extent trees => exact List.mem_cons_self
  | gap => cases solid

theorem solid_of_mem_nodes (inside : s ∈ t.nodes) : s.isGap = false := by
  induction t using induct with
  | leaf token =>
    obtain rfl := List.mem_singleton.mp inside
    rfl
  | gap => cases inside
  | node kind extent trees ih =>
    rcases List.mem_cons.mp inside with rfl | below
    · rfl
    · obtain ⟨t, member, within⟩ := mem_nodesOf.mp below
      exact ih t member within

theorem map_snd_children :
    (node kind extent trees).children.map Prod.snd = trees.filter (!·.isGap) := by
  have positions : trees.filter (!·.isGap) = (trees.zipIdx.map Prod.fst).filter (!·.isGap) := by
    rw [List.zipIdx_map_fst]
  rw [positions, List.filter_map, children, List.map_map]
  rfl

theorem child_of_mem_children (member : child ∈ (node kind extent trees).children) :
    child.2 ∈ trees ∧ child.2.isGap = false := by
  have below := List.mem_map_of_mem (f := Prod.snd) member
  rw [map_snd_children, List.mem_filter, Bool.not_eq_true'] at below
  exact below

theorem nodesOf_filter : nodesOf (trees.filter (!·.isGap)) = nodesOf trees := by
  induction trees with
  | nil => rfl
  | cons t rest ih =>
    cases t with
    | gap => exact ih
    | leaf token => exact congrArg (_ ++ ·) ih
    | node kind extent trees => exact congrArg (_ ++ ·) ih

/-- A tree that is no gap comes before the nodes of its children. -/
theorem nodes_eq_cons (solid : t.isGap = false) :
    t.nodes = t :: t.children.flatMap (·.2.nodes) := by
  cases t with
  | leaf token => rfl
  | gap => cases solid
  | node kind extent trees =>
    have below : (node kind extent trees).children.flatMap (·.2.nodes) =
        ((node kind extent trees).children.map Prod.snd).flatMap nodes :=
      (List.flatMap_map ..).symm
    rw [below, map_snd_children, ← nodesOf_eq_flatMap, nodesOf_filter, nodes]

theorem mem_nodes_trans (inner : u ∈ t.nodes) (outer : t ∈ s.nodes) : u ∈ s.nodes := by
  induction s using induct with
  | leaf token =>
    obtain rfl := List.mem_singleton.mp outer
    exact inner
  | gap => cases outer
  | node kind extent trees ih =>
    rw [nodes] at outer
    rcases List.mem_cons.mp outer with rfl | deeper
    · exact inner
    · obtain ⟨above, member, deeper⟩ := mem_nodesOf.mp deeper
      exact List.mem_cons_of_mem _ (mem_nodesOf.mpr ⟨above, member, ih above member deeper⟩)

theorem mem_nodes_of_child (within : t ∈ s.nodes) (member : child ∈ t.children) :
    child.2 ∈ s.nodes := by
  refine mem_nodes_trans ?_ within
  cases t with
  | leaf | gap => cases member
  | node kind extent trees =>
    obtain ⟨below, solid⟩ := child_of_mem_children member
    exact List.mem_cons_of_mem _ (mem_nodesOf.mpr ⟨_, below, mem_nodes_self solid⟩)

end VyperFront.Tree
