import VyperFront.Grammar.Production
import VyperFront.Tree.Basic

/-! Fragments: what a matched symbol brings to the tree that is being built. A
fragment remembers all the text it was matched on, brackets and keywords
included, even where a tree inside of it does not. -/

namespace VyperFront

/-- The trees of a matched symbol and the text it was matched on. -/
structure Fragment where
  trees : List Tree
  extent : Option Extent
  deriving Inhabited

namespace Fragment

def ofToken (t : SourceToken) : Fragment := ⟨[.leaf t], some t.place⟩

/-- The trees of the kept symbols, with the gaps between them. -/
def keep : List Slot → List Fragment → List Tree
  | [], _ => []
  | .gap :: slots, parts => .gap :: keep slots parts
  | .kept _ :: slots, part :: parts => part.trees ++ keep slots parts
  | .dropped _ :: slots, _ :: parts => keep slots parts
  | _ :: _, [] => []

/-- The fragment of a production from the fragments of its symbols. A token that
stands for the whole only counts for its own text. -/
def reduce (p : Production) (parts : List Fragment) : Fragment :=
  let trees := keep p.slots parts
  let extent := Extent.span? (parts.filterMap (·.extent))
  match p.shape, trees with
  | .node kind, _ => ⟨[.node kind extent trees], extent⟩
  | .pass, [.leaf token] => ⟨trees, some token.place⟩
  | _, _ => ⟨trees, extent⟩

end Fragment

end VyperFront
