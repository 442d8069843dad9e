import VyperFront.Proofs.Token
import VyperFront.Tree.Basic
import VyperFront.Tree.Fragment
import VyperFront.Tree.Preorder

namespace VyperFront

namespace Tree

mutual

/-- The same tree over recast tokens. -/
def recast (m : Recast) : Tree → Tree
  | leaf token => leaf (m.token token)
  | node kind extent children => node kind (extent.map (Extent.map m.place)) (recastAll m children)
  | gap => gap

def recastAll (m : Recast) : List Tree → List Tree
  | [] => []
  | t :: rest => t.recast m :: recastAll m rest

end

variable {m : Recast}

theorem recastAll_eq_map (trees : List Tree) : recastAll m trees = trees.map (recast m) := by
  induction trees with
  | nil => rfl
  | cons t rest ih => rw [recastAll, ih, List.map_cons]

@[simp] theorem isGap_recast (t : Tree) : (t.recast m).isGap = t.isGap := by
  cases t <;> rfl

@[simp] theorem isNamed_recast (t : Tree) : (t.recast m).isNamed = t.isNamed := by
  cases t <;> rfl

private theorem sexps_recast {trees : List Tree}
    (same : ∀ t ∈ trees, t.isNamed = true → (t.recast m).sexp = t.sexp) (kind : NodeKind)
    (position : Nat) : sexps kind position (recastAll m trees) = sexps kind position trees := by
  induction trees generalizing position with
  | nil => rfl
  | cons t rest ih =>
    obtain ⟨here, later⟩ := List.forall_mem_cons.mp same
    rw [recastAll, sexps, sexps, ih later, isNamed_recast]
    split
    · next named => rw [here named]
    · rfl

/-- The S-expression of a named tree goes by the kinds of its tokens. -/
theorem sexp_recast {t : Tree} (named : t.isNamed = true) : (t.recast m).sexp = t.sexp := by
  induction t using Tree.induct with
  | leaf token =>
    obtain ⟨kind, known⟩ := Option.isSome_iff_exists.mp named
    have known : NodeKind.ofTerminal? token.kind = some kind := known
    simp only [recast, sexp, type, Recast.kind_token, known]
  | gap => cases named
  | node kind extent children ih => rw [recast, sexp, sexp, sexps_recast ih]

end Tree

namespace Fragment

/-- The same fragment over recast tokens. -/
def recast (m : Recast) (f : Fragment) : Fragment :=
  ⟨f.trees.map (Tree.recast m), f.extent.map (Extent.map m.place)⟩

variable {m : Recast}

@[simp] theorem recast_ofToken (t : SourceToken) : (ofToken t).recast m = .ofToken (m.token t) :=
  rfl

theorem keep_recast (slots : List Slot) (parts : List Fragment) :
    keep slots (parts.map (recast m)) = (keep slots parts).map (Tree.recast m) := by
  induction slots generalizing parts with
  | nil => rfl
  | cons slot rest ih =>
    cases slot with
    | gap => exact congrArg (Tree.gap :: ·) (ih parts)
    | kept s =>
      cases parts with
      | nil => rfl
      | cons part parts => simp [keep, ih, recast]
    | dropped s =>
      cases parts with
      | nil => rfl
      | cons part parts => exact ih parts

theorem reduce_recast (p : Production) (parts : List Fragment) :
    reduce p (parts.map (recast m)) = (reduce p parts).recast m := by
  have extents : (parts.map (recast m)).filterMap (·.extent) =
      (parts.filterMap (·.extent)).map (Extent.map m.place) := by
    rw [List.filterMap_map, List.map_filterMap]
    rfl
  rw [reduce, reduce, keep_recast, extents, Extent.span?_map]
  generalize keep p.slots parts = kept
  cases p.shape with
  | node kind => simp [recast, Tree.recast, Tree.recastAll_eq_map]
  | splice => rfl
  | pass =>
    match kept with
    | [.leaf t] => rfl
    | [] => rfl
    | .gap :: _ => rfl
    | .node .. :: _ => rfl
    | .leaf _ :: _ :: _ => rfl

end Fragment

/-- What a tree says apart from where it was found. -/
inductive View where
  | leaf (kind : Terminal) (text : Text)
  | node (kind : NodeKind) (children : List (Option Field × View))

namespace View

/-- The views of the children of a node with the fields that they stand in. -/
def labelled (kind : NodeKind) (position : Nat) : List View → List (Option Field × View)
  | [] => []
  | v :: rest => (kind.field? position, v) :: labelled kind (position + 1) rest

theorem labelled_eq_map {kind : NodeKind} {position : Nat} {field : Option Field}
    (same : ∀ i, position ≤ i → kind.field? i = field) (views : List View) :
    labelled kind position views = views.map (field, ·) := by
  induction views generalizing position with
  | nil => rfl
  | cons v rest ih =>
    rw [labelled, ih fun i later => same i (Nat.le_of_succ_le later), same _ (Nat.le_refl _)]
    rfl

end View

namespace Tree

mutual

/-- The tree without places. Gaps are no children. -/
def view : Tree → View
  | leaf token => .leaf token.kind token.text
  | node kind _ children => .node kind (views kind 0 children)
  | gap => .node .error []

def views (kind : NodeKind) (position : Nat) : List Tree → List (Option Field × View)
  | [] => []
  | t :: rest =>
    if t.isGap then views kind (position + 1) rest
    else (kind.field? position, t.view) :: views kind (position + 1) rest

end

private theorem views_eq (kind : NodeKind) (position : Nat) (trees : List Tree) :
    views kind position trees =
      ((trees.zipIdx position).filter (!·.1.isGap)).map fun child =>
        (kind.field? child.2, child.1.view) := by
  induction trees generalizing position with
  | nil => rfl
  | cons t rest ih =>
    rw [views, List.zipIdx_cons, ih]
    cases gap : t.isGap <;> simp [gap]

theorem view_node (kind : NodeKind) (extent : Option Extent) (trees : List Tree) :
    (node kind extent trees).view =
      .node kind ((node kind extent trees).children.map fun child => (child.1, child.2.view)) := by
  rw [view, views_eq, children, List.map_map]
  rfl

theorem views_eq_labelled {trees : List Tree} (solid : ∀ t ∈ trees, t.isGap = false)
    (kind : NodeKind) (position : Nat) :
    views kind position trees = View.labelled kind position (trees.map view) := by
  induction trees generalizing position with
  | nil => rfl
  | cons t rest ih =>
    obtain ⟨here, later⟩ := List.forall_mem_cons.mp solid
    rw [views, if_neg (by simp [here]), ih later]
    rfl

/-- The same tree at other places has the same view. -/
@[simp] theorem view_move (f : Place → Place) (t : Tree) : (t.recast (.move f)).view = t.view := by
  induction t using Tree.induct with
  | leaf token => rfl
  | gap => rfl
  | node kind extent trees ih =>
    have same (position : Nat) :
        views kind position (recastAll (.move f) trees) = views kind position trees := by
      induction trees generalizing position with
      | nil => rfl
      | cons t rest more =>
        obtain ⟨here, later⟩ := List.forall_mem_cons.mp ih
        rw [recastAll, views, views, isGap_recast, here, more later]
    rw [recast, view, view, same]

end Tree

end VyperFront
