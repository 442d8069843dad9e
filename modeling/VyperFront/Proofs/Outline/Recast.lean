import Mathlib.Data.List.Infix
import VyperFront.Outline.Declaration
import VyperFront.Proofs.Tree.Recast

namespace VyperFront

namespace Tree

variable {m : Recast} {t : Tree} {kind : NodeKind} {extent : Option Extent} {trees : List Tree}

theorem recast_node : (node kind extent trees).recast m =
    node kind (extent.map (Extent.map m.place)) (trees.map (recast m)) := by
  rw [recast, recastAll_eq_map]

theorem exists_of_recast_eq_node (same : t.recast m = node kind extent trees) :
    ∃ before children, t = node kind before children ∧ trees = children.map (recast m) := by
  cases t with
  | leaf token => cases same
  | gap => cases same
  | node kind before children =>
    rw [recast_node] at same
    cases same
    exact ⟨before, children, rfl, rfl⟩

theorem recast_move_id (t : Tree) : t.recast (.move id) = t := by
  induction t using Tree.induct with
  | leaf token => rfl
  | gap => rfl
  | node kind extent trees ih =>
    have children : trees.map (recast (.move id)) = trees :=
      (List.map_congr_left ih).trans (List.map_id' trees)
    rw [recast_node, children]
    cases extent <;> rfl

end Tree

namespace Outline

open VyperFront.Tree

/-- The nodes of the tree are written in the other source, recast, as they are in the first. -/
def Same (m : Recast) (source other : Text) (t : Tree) : Prop :=
  ∀ s ∈ t.nodes, written other (s.recast m) = written source s

variable {m : Recast} {source other : Text} {t s : Tree} {kind : NodeKind}
  {extent : Option Extent} {trees : List Tree}

theorem Same.written (same : Same m source other t) :
    written other (t.recast m) = written source t := by
  cases solid : t.isGap with
  | true =>
    cases t with
    | gap => rfl
    | leaf token => cases solid
    | node kind extent trees => cases solid
  | false => exact same t (mem_nodes_self solid)

theorem Same.child (same : Same m source other (.node kind extent trees)) (member : s ∈ trees) :
    Same m source other s := fun u inside =>
  same u (List.mem_cons_of_mem _ (mem_nodesOf.mpr ⟨s, member, inside⟩))

theorem Same.optional (same : Same m source other t) :
    optional other (t.recast m) = optional source t := by
  cases t with
  | gap => rfl
  | leaf token => exact congrArg some same.written
  | node kind extent trees => exact congrArg some same.written

theorem parameter_recast (same : Same m source other t) :
    parameter other (t.recast m) = parameter source t := by
  fun_cases parameter source t with
  | case1 extent name type =>
    have name := (same.child (s := name) (by simp)).written
    have type := (same.child (s := type) (by simp)).written
    simp [parameter, recast_node, name, type]
  | case2 extent name value =>
    have name := (same.child (s := name) (by simp)).written
    have value := (same.child (s := value) (by simp)).written
    simp [parameter, recast_node, name, value]
  | case3 extent name type value =>
    have name := (same.child (s := name) (by simp)).written
    have type := (same.child (s := type) (by simp)).written
    have value := (same.child (s := value) (by simp)).written
    simp [parameter, recast_node, name, type, value]
  | case4 t notTyped notDefault notBoth =>
    unfold parameter
    split
    · next found =>
      obtain ⟨_, trees, rfl, row⟩ := exists_of_recast_eq_node found
      match trees, row with
      | [name, type], _ => exact (notTyped _ name type rfl).elim
    · next found =>
      obtain ⟨_, trees, rfl, row⟩ := exists_of_recast_eq_node found
      match trees, row with
      | [name, value], _ => exact (notDefault _ name value rfl).elim
    · next found =>
      obtain ⟨_, trees, rfl, row⟩ := exists_of_recast_eq_node found
      match trees, row with
      | [name, type, value], _ => exact (notBoth _ name type value rfl).elim
    · rw [same.written]

theorem parts_recast (t : Tree) : parts (t.recast m) = (parts t).map (recast m) := by
  cases t with
  | leaf token => rfl
  | gap => rfl
  | node kind extent trees =>
    have solid : ((!·.isGap) ∘ recast m) = (!·.isGap) := funext fun t => by simp
    rw [recast_node, parts, parts, List.filter_map, solid]

theorem Same.part (same : Same m source other t) (member : s ∈ parts t) :
    Same m source other s := by
  cases t with
  | leaf token => cases member
  | gap => cases member
  | node kind extent trees => exact same.child (List.mem_filter.mp member).1

theorem statement?_recast (same : Same m source other t) :
    statement? other (t.recast m) = statement? source t := by
  fun_cases statement? source t with
  | case1 extent e =>
    have e := (same.child (s := e) (by simp)).written
    simp [statement?, recast_node, e]
  | case2 kind extent trees notExpression declares =>
    unfold statement?
    split
    · next found =>
      obtain ⟨_, _, inside, row⟩ := exists_of_recast_eq_node found
      cases inside
      match trees, row with
      | [e], _ => exact (notExpression e rfl rfl).elim
    · next found =>
      obtain ⟨_, _, inside, _⟩ := exists_of_recast_eq_node found
      cases inside
      rw [if_pos declares]
    · rfl
  | case3 kind extent trees notExpression declares =>
    rw [← same.written]
    unfold statement?
    split
    · next found =>
      obtain ⟨_, _, inside, row⟩ := exists_of_recast_eq_node found
      cases inside
      match trees, row with
      | [e], _ => exact (notExpression e rfl rfl).elim
    · next found =>
      obtain ⟨_, _, inside, _⟩ := exists_of_recast_eq_node found
      cases inside
      rw [if_neg declares, ← found]
    · next plain => exact (plain _ _ _ recast_node).elim
  | case4 t _ notNode =>
    cases t with
    | leaf token => rfl
    | gap => rfl
    | node kind extent trees => exact (notNode kind extent trees rfl).elim

theorem bodyMutability?_recast (same : Same m source other t) :
    bodyMutability? other (t.recast m) = bodyMutability? source t := by
  rw [bodyMutability?, bodyMutability?, parts_recast]
  match found : parts t with
  | [] => rfl
  | [only] =>
    have here := statement?_recast (same.part (s := only) (by simp [found]))
    simp [here]
  | _ :: _ :: _ => rfl

theorem function?_recast (same : Same m source other t) :
    function? other (t.recast m) = function? source t := by
  fun_cases function? source t with
  | case1 extent name parameters returns body =>
    have row : (parts (parameters.recast m)).map (parameter other) =
        (parts parameters).map (parameter source) := by
      rw [parts_recast, List.map_map]
      exact List.map_congr_left fun t member =>
        parameter_recast ((same.child (s := parameters) (by simp)).part member)
    have name := (same.child (s := name) (by simp)).written
    have returns := (same.child (s := returns) (by simp)).optional
    have body := bodyMutability?_recast (same.child (s := body) (by simp))
    simp [function?, recast_node, name, row, returns, body]
  | case2 t plain =>
    unfold function?
    split
    · next found =>
      obtain ⟨_, trees, rfl, row⟩ := exists_of_recast_eq_node found
      match trees, row with
      | [name, parameters, returns, body], _ =>
        exact (plain _ name parameters returns body rfl).elim
    · rfl

theorem decorator?_recast (same : Same m source other t) :
    decorator? other (t.recast m) = decorator? source t := by
  fun_cases decorator? source t with
  | case1 extent e =>
    have e := (same.child (s := e) (by simp)).written
    simp [decorator?, recast_node, e]
  | case2 t plain =>
    unfold decorator?
    split
    · next found =>
      obtain ⟨_, trees, rfl, row⟩ := exists_of_recast_eq_node found
      match trees, row with
      | [e], _ => exact (plain _ e rfl).elim
    · rfl

theorem decorated_recast (same : ∀ t ∈ trees, Same m source other t) (f : Function) :
    decorated other (trees.map (recast m)) f = decorated source trees f := by
  have row : (trees.map (recast m)).filterMap (decorator? other) =
      trees.filterMap (decorator? source) := by
    rw [List.filterMap_map]
    exact List.filterMap_congr fun t member => decorator?_recast (same t member)
  rw [decorated, decorated, row]

theorem anyFunction?_recast (same : Same m source other t) :
    anyFunction? other (t.recast m) = anyFunction? source t := by
  fun_cases anyFunction? source t with
  | case1 extent trees =>
    have decorators := @decorated_recast _ _ _ trees.dropLast fun t member =>
      same.child (List.mem_of_mem_dropLast member)
    have last : (trees.map (recast m)).getLast?.bind (function? other) =
        trees.getLast?.bind (function? source) := by
      rw [List.getLast?_map, Option.bind_map]
      cases found : trees.getLast? with
      | none => rfl
      | some t => exact function?_recast (same.child (List.mem_of_getLast? found))
    rw [recast_node, anyFunction?, last, ← List.map_dropLast]
    exact congrArg (Option.map · _) (funext decorators)
  | case2 t plain =>
    unfold anyFunction?
    split
    · next found =>
      obtain ⟨_, trees, rfl, _⟩ := exists_of_recast_eq_node found
      exact (plain _ trees rfl).elim
    · exact function?_recast same

theorem declaredVariable?_recast (same : Same m source other t) :
    declaredVariable? other (t.recast m) = declaredVariable? source t := by
  fun_cases declaredVariable? source t with
  | case1 extent target declared value modifiers type split =>
    have target := (same.child (s := target) (by simp)).written
    have declared := (same.child (s := declared) (by simp)).written
    have value := (same.child (s := value) (by simp)).optional
    simp [declaredVariable?, recast_node, target, declared, value, split]
  | case2 t plain =>
    unfold declaredVariable?
    split
    · next found =>
      obtain ⟨_, trees, rfl, row⟩ := exists_of_recast_eq_node found
      match trees, row with
      | [target, declared, value], _ => exact (plain _ target declared value rfl).elim
    · rfl

private theorem declaration?_of_other
    (notImplements : ∀ e name, t ≠ .node .implementsStatement e [name])
    (notEvent : ∀ e name body, t ≠ .node .eventDefinition e [name, body])
    (notStruct : ∀ e name body, t ≠ .node .structDefinition e [name, body])
    (notFlag : ∀ e name body, t ≠ .node .flagDefinition e [name, body])
    (notInterface : ∀ e name body, t ≠ .node .interfaceDefinition e [name, body]) :
    declaration? other (t.recast m) =
      match declaredVariable? other (t.recast m) with
      | some v => some (.storage v)
      | none => (anyFunction? other (t.recast m)).map .function := by
  have pair {kind : NodeKind} {extent : Option Extent} {name body : Tree}
      (found : t.recast m = .node kind extent [name, body]) :
      ∃ e name body, t = .node kind e [name, body] := by
    obtain ⟨e, trees, rfl, row⟩ := exists_of_recast_eq_node found
    match trees, row with
    | [name, body], _ => exact ⟨e, name, body, rfl⟩
  unfold declaration?
  split
  · next found =>
    obtain ⟨_, trees, rfl, row⟩ := exists_of_recast_eq_node found
    match trees, row with
    | [name], _ => exact (notImplements _ name rfl).elim
  · next found =>
    obtain ⟨e, name, body, same⟩ := pair found
    exact (notEvent e name body same).elim
  · next found =>
    obtain ⟨e, name, body, same⟩ := pair found
    exact (notStruct e name body same).elim
  · next found =>
    obtain ⟨e, name, body, same⟩ := pair found
    exact (notFlag e name body same).elim
  · next found =>
    obtain ⟨e, name, body, same⟩ := pair found
    exact (notInterface e name body same).elim
  · rfl

theorem Same.filterMap {f g : Tree → Option α} (same : Same m source other t)
    (each : ∀ s ∈ parts t, Same m source other s → g (s.recast m) = f s) :
    (parts (t.recast m)).filterMap g = (parts t).filterMap f := by
  rw [parts_recast, List.filterMap_map]
  exact List.filterMap_congr fun s member => each s member (same.part member)

theorem declaration?_recast (same : Same m source other t) :
    declaration? other (t.recast m) = declaration? source t := by
  have fields (body : Tree) (same : Same m source other body) :=
    same.filterMap fun _ _ => declaredVariable?_recast
  fun_cases declaration? source t with
  | case1 extent name =>
    have name := (same.child (s := name) (by simp)).written
    simp [declaration?, recast_node, name]
  | case2 extent name body =>
    have name := (same.child (s := name) (by simp)).written
    simp [declaration?, recast_node, name, fields body (same.child (by simp))]
  | case3 extent name body =>
    have name := (same.child (s := name) (by simp)).written
    simp [declaration?, recast_node, name, fields body (same.child (by simp))]
  | case4 extent name body members =>
    have name := (same.child (s := name) (by simp)).written
    have body := (same.child (s := body) (by simp)).filterMap fun _ _ => statement?_recast
    simp [declaration?, recast_node, name, body, members]
  | case5 extent name body =>
    have name := (same.child (s := name) (by simp)).written
    have body := (same.child (s := body) (by simp)).filterMap fun _ _ => anyFunction?_recast
    simp [declaration?, recast_node, name, body]
  | case6 t first second third fourth fifth v found =>
    rw [declaration?_of_other first second third fourth fifth, declaredVariable?_recast same, found]
  | case7 t first second third fourth fifth none =>
    rw [declaration?_of_other first second third fourth fifth, declaredVariable?_recast same, none,
      anyFunction?_recast same]

theorem slice_append_left {first : Text} {start stop : Nat} (within : stop ≤ first.length)
    (second : Text) : (first ++ second).slice start stop = first.slice start stop := by
  rw [Text.slice, Text.slice, ← List.drop_take, ← List.drop_take,
    List.take_append_of_le_length within]

theorem slice_append_right (first second : Text) (start stop : Nat) :
    (first ++ second).slice (start + first.length) (stop + first.length) =
      second.slice start stop := by
  rw [Text.slice, Text.slice, Nat.add_comm start, List.drop_length_add_append, Nat.add_comm stop,
    Nat.add_sub_add_left]

/-- What a source declares is declared with another one after it, too, and so is what that one
declares. -/
theorem declarations_append {first : Text} {trees more : List Tree} (lines : Nat) (second : Text)
    (within : ∀ t ∈ trees, ∀ s ∈ t.nodes, ∀ e ∈ s.extent?, e.stop.offset ≤ first.length) :
    (trees ++ more.map (recast (.move (Place.shift first.length lines)))).filterMap
        (declaration? (first ++ second)) =
      trees.filterMap (declaration? first) ++ more.filterMap (declaration? second) := by
  have before : ∀ t ∈ trees, declaration? (first ++ second) t = declaration? first t := by
    intro t member
    have same : Same (.move id) first (first ++ second) t := by
      intro s inside
      rw [recast_move_id]
      cases s with
      | leaf token => rfl
      | gap => rfl
      | node kind extent trees =>
        cases extent with
        | none => rfl
        | some e => exact slice_append_left (within t member _ inside e rfl) second
    rw [← declaration?_recast same, recast_move_id]
  have after (t : Tree) : declaration? (first ++ second)
      (t.recast (.move (Place.shift first.length lines))) = declaration? second t := by
    apply declaration?_recast
    intro s _
    cases s with
    | leaf token => rfl
    | gap => rfl
    | node kind extent trees =>
      cases extent with
      | none => rfl
      | some e => exact slice_append_right first second e.start.offset e.stop.offset
  rw [List.filterMap_append, List.filterMap_map, List.filterMap_congr before]
  exact congrArg _ (List.filterMap_congr fun t _ => after t)

end Outline

end VyperFront
