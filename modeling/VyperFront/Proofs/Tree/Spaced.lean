import VyperFront.Proofs.Text.Place
import VyperFront.Tree.Preorder

namespace VyperFront.Tree

/-- Trees that stand one after the other between two offsets, and so do those below each. -/
inductive Spaced (text : Text) : Nat → List Tree → Nat → Prop where
  | nil (le : lo ≤ hi) : Spaced text lo [] hi
  | gap (rest : Spaced text lo trees hi) : Spaced text lo (gap :: trees) hi
  | leaf (placed : t.place.In text) (after : lo ≤ t.place.start.offset)
    (rest : Spaced text t.place.stop.offset trees hi) : Spaced text lo (leaf t :: trees) hi
  | node (placed : e.In text) (after : lo ≤ e.start.offset)
    (below : Spaced text e.start.offset deeper e.stop.offset)
    (rest : Spaced text e.stop.offset trees hi) :
    Spaced text lo (node kind (some e) deeper :: trees) hi

/-- Whether the tree has its place in the text, and its children have theirs inside. -/
def Settled (text : Text) (t : Tree) : Prop :=
  ∃ e, t.extent? = some e ∧ e.In text ∧
    Spaced text e.start.offset (t.children.map Prod.snd) e.stop.offset

variable {text : Text} {lo mid hi : Nat} {trees more : List Tree} {t : Tree} {e : Extent}

namespace Spaced

theorem le (spaced : Spaced text lo trees hi) : lo ≤ hi := by
  induction spaced with
  | nil le => exact le
  | gap _ ih => exact ih
  | leaf placed after _ ih =>
    have := placed.forward
    omega
  | node placed after _ _ _ ih =>
    have := placed.forward
    omega

theorem from_le (spaced : Spaced text mid trees hi) (le : lo ≤ mid) : Spaced text lo trees hi := by
  induction spaced with
  | nil between => exact .nil (Nat.le_trans le between)
  | gap _ ih => exact .gap (ih le)
  | leaf placed after rest _ => exact .leaf placed (Nat.le_trans le after) rest
  | node placed after below rest _ _ => exact .node placed (Nat.le_trans le after) below rest

theorem append (first : Spaced text lo trees mid) (second : Spaced text mid more hi) :
    Spaced text lo (trees ++ more) hi := by
  induction first with
  | nil le => exact second.from_le le
  | gap _ ih => exact .gap (ih second)
  | leaf placed after _ ih => exact .leaf placed after (ih second)
  | node placed after below _ _ ih => exact .node placed after below (ih second)

theorem filter (spaced : Spaced text lo trees hi) :
    Spaced text lo (trees.filter (!·.isGap)) hi := by
  induction spaced with
  | nil le => exact .nil le
  | gap _ ih => exact ih
  | leaf placed after _ ih => exact .leaf placed after ih
  | node placed after below _ _ ih => exact .node placed after below ih

theorem between (spaced : Spaced text lo trees hi) (member : t ∈ trees)
    (found : t.extent? = some e) : lo ≤ e.start.offset ∧ e.stop.offset ≤ hi := by
  induction spaced with
  | nil _ => cases member
  | gap _ ih =>
    rcases List.mem_cons.mp member with rfl | later
    · cases found
    · exact ih later
  | leaf placed after rest ih =>
    rcases List.mem_cons.mp member with rfl | later
    · cases found
      exact ⟨after, rest.le⟩
    · have := placed.forward
      have := ih later
      omega
  | node placed after _ rest _ ih =>
    rcases List.mem_cons.mp member with rfl | later
    · cases found
      exact ⟨after, rest.le⟩
    · have := placed.forward
      have := ih later
      omega

theorem pairwise (spaced : Spaced text lo trees hi) :
    trees.Pairwise fun s t => ∀ e f, s.extent? = some e → t.extent? = some f →
      e.stop.offset ≤ f.start.offset := by
  induction spaced with
  | nil _ => exact .nil
  | gap _ ih => exact .cons (fun _ _ _ _ none => nomatch none) ih
  | leaf _ _ rest ih =>
    refine .cons (fun u member e f here found => ?_) ih
    cases here
    exact (rest.between member found).1
  | node _ _ _ rest _ ih =>
    refine .cons (fun u member e f here found => ?_) ih
    cases here
    exact (rest.between member found).1

theorem settled (spaced : Spaced text lo trees hi) : ∀ t ∈ nodesOf trees, t.Settled text := by
  induction spaced with
  | nil _ => exact nofun
  | gap _ ih => exact ih
  | leaf placed _ _ ih =>
    exact List.forall_mem_cons.mpr ⟨⟨_, rfl, placed, .nil (Nat.le_of_lt placed.forward)⟩, ih⟩
  | node placed _ below _ deeper ih =>
    refine List.forall_mem_cons.mpr ⟨⟨_, rfl, placed, ?_⟩, List.forall_mem_append.mpr ⟨deeper, ih⟩⟩
    rw [map_snd_children]
    exact below.filter

end Spaced

end VyperFront.Tree
