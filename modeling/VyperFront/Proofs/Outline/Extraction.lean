import Mathlib.Data.List.Basic
import VyperFront.Proofs.Outline.Form

/-! The outline from the leaves up is the outline from the root down. No node of a derivation finds
other values below it than it expects: in the form of its kind, each tree below it has become what
the node takes it for. -/

namespace VyperFront

open Outline

namespace Outline

variable {source : Text} {t u : Tree} {kind : NodeKind} {extent : Option Extent}
  {trees : List Tree} {c : Category}

/-- What a statement should become. -/
def item (source : Text) (t : Tree) : Value :=
  match declaration? source t with
  | some d => .declaration d
  | none => .text ((statement? source t).getD [])

/-- What a tree should become, as it is read from the root down. -/
def valueOf (source : Text) (t : Tree) : Value :=
  match t with
  | .leaf token => .text token.text
  | .gap => .gap
  | .node kind _ trees =>
    match kind.category with
    | .statement | .function => item source t
    | .parameter => .parameter (parameter source t)
    | .decorator => .text ((decorator? source t).getD [])
    | .block => .list (trees.map (item source))
    | .parameters => .list (trees.map fun p => .parameter (parameter source p))
    | .file => .list ((trees.filterMap (declaration? source)).map .declaration)
    | .text | .leaf => .text (written source t)

theorem declaration?_of_plain (plain : handler? kind = none) :
    declaration? source (.node kind extent trees) = none := by
  cases kind <;> first | rfl | cases plain

theorem statement?_of_plain (plain : handler? kind = none) :
    statement? source (.node kind extent trees) = some (written source (.node kind extent trees)) := by
  cases kind <;> first | rfl | cases plain

theorem declaredVariable?_of_plain (plain : handler? kind = none) :
    declaredVariable? source (.node kind extent trees) = none := by
  cases kind <;> first | rfl | cases plain

theorem anyFunction?_of_plain (plain : handler? kind = none) :
    anyFunction? source (.node kind extent trees) = none := by
  cases kind <;> first | rfl | cases plain

theorem exists_function (source : Text) (form : t.Form) (counts : t.Counts .function) :
    ∃ f, function? source t = some f := by
  obtain ⟨extent, trees, rfl⟩ := counts.exists_node .functionDefinition rfl (by decide)
  cases form with
  | written plain => cases plain
  | function => exact ⟨_, rfl⟩

theorem anyFunction?_decorated (extent : Option Extent) (trees : List Tree) {f : Function}
    (found : function? source u = some f) :
    anyFunction? source (.node .decoratedDefinition extent (trees ++ [u])) =
      some (decorated source trees f) := by
  rw [anyFunction?, List.getLast?_concat, Option.bind_some, found, List.dropLast_concat]
  rfl

theorem statement_cases (source : Text) (forms : ∀ s ∈ t.nodes, s.Form)
    (counts : t.Counts .statement) :
    (∃ d, declaration? source t = some d ∧ statement? source t = none ∧
      declaredVariable? source t = (Value.declaration d).storage? ∧
      anyFunction? source t = (Value.declaration d).function?) ∨
    ∃ w, declaration? source t = none ∧ statement? source t = some w ∧
      declaredVariable? source t = none ∧ anyFunction? source t = none := by
  cases forms t (Tree.mem_nodes_self counts.solid) with
  | gap => obtain ⟨_, ⟨⟩, _⟩ := counts
  | leaf => obtain ⟨_, ⟨⟩, ⟨⟩⟩ := counts
  | written plain =>
    exact .inr ⟨_, declaration?_of_plain plain, statement?_of_plain plain,
      declaredVariable?_of_plain plain, anyFunction?_of_plain plain⟩
  | expression => exact .inr ⟨_, rfl, rfl, rfl, rfl⟩
  | storage => exact .inl ⟨_, rfl, rfl, rfl, rfl⟩
  | function => exact .inl ⟨_, rfl, rfl, rfl, rfl⟩
  | implements => exact .inl ⟨_, rfl, rfl, rfl, rfl⟩
  | event => exact .inl ⟨_, rfl, rfl, rfl, rfl⟩
  | struct => exact .inl ⟨_, rfl, rfl, rfl, rfl⟩
  | flag => exact .inl ⟨_, rfl, rfl, rfl, rfl⟩
  | interface => exact .inl ⟨_, rfl, rfl, rfl, rfl⟩
  | @decorated trees extent u _ function =>
    have below : u ∈ (Tree.node .decoratedDefinition extent (trees ++ [u])).nodes :=
      List.mem_cons_of_mem _ (Tree.mem_nodesOf.mpr
        ⟨u, by simp, Tree.mem_nodes_self function.solid⟩)
    obtain ⟨f, found⟩ := exists_function source (forms u below) function
    have whole := anyFunction?_decorated extent trees found
    exact .inl ⟨.function (decorated source trees f), congrArg (Option.map _) whole, rfl, rfl, whole⟩
  | _ => obtain ⟨_, ⟨⟩, ⟨⟩⟩ := counts

section Statement

variable (forms : ∀ s ∈ t.nodes, s.Form) (counts : t.Counts .statement)
include forms counts

theorem text?_item : (item source t).text? = statement? source t := by
  rcases statement_cases source forms counts with ⟨d, found, text, _⟩ | ⟨w, found, text, _⟩
  · rw [item, found, text]
    rfl
  · rw [item, found, text]
    rfl

theorem storage?_item : (item source t).storage? = declaredVariable? source t := by
  rcases statement_cases source forms counts with ⟨d, found, _, declared, _⟩ | ⟨w, found, _, none, _⟩
  · rw [item, found, declared]
  · rw [item, found, none]
    rfl

theorem function?_item : (item source t).function? = anyFunction? source t := by
  rcases statement_cases source forms counts with ⟨d, found, _, _, declared⟩ | ⟨w, found, _, _, none⟩
  · rw [item, found, declared]
  · rw [item, found, none]
    rfl

end Statement

theorem category_of_within (kind : NodeKind) :
    (kind.category.within .text = true → kind.category = .text) ∧
      (kind.category.within .parameter = true → kind.category = .parameter) ∧
      (kind.category.within .statement = true →
        kind.category = .statement ∨ kind.category = .function) := by
  cases kind <;> decide

theorem valueOf_text (counts : t.Counts .text) : valueOf source t = .text (written source t) := by
  cases t with
  | gap => cases counts.solid
  | leaf token => rfl
  | node kind extent trees => rw [valueOf, (category_of_within kind).1 counts.within]

theorem valueOf_statement (counts : t.Counts .statement) : valueOf source t = item source t := by
  cases t with
  | gap => cases counts.solid
  | leaf token => obtain ⟨_, ⟨⟩, ⟨⟩⟩ := counts
  | node kind extent trees =>
    rw [valueOf]
    rcases (category_of_within kind).2.2 counts.within with category | category
    · rw [category]
    · rw [category]

theorem optional?_valueOf (counts : t.CountsOrGap) :
    (valueOf source t).optional? = some (optional source t) := by
  rcases counts with text | rfl
  · rw [valueOf_text text]
    cases t with
    | gap => cases text.solid
    | leaf | node => rfl
  · rfl

theorem parameter?_valueOf (counts : t.Counts .parameter) :
    (valueOf source t).parameter? = some (parameter source t) := by
  cases t with
  | gap => cases counts.solid
  | leaf token => rfl
  | node kind extent trees =>
    rw [valueOf, (category_of_within kind).2.1 counts.within]
    rfl

theorem decorator?_valueOf (source : Text) (form : t.Form) (counts : t.Counts .decorator) :
    ∃ w, decorator? source t = some w ∧ valueOf source t = .text w := by
  obtain ⟨extent, trees, rfl⟩ := counts.exists_node .decorator rfl (by decide)
  cases form with
  | written plain => cases plain
  | decorator => exact ⟨_, rfl, rfl⟩

theorem mapM_eq_some {α β : Type} {f : α → Option β} {g : α → β} {as : List α}
    (each : ∀ a ∈ as, f a = some (g a)) : as.mapM f = some (as.map g) := by
  induction as with
  | nil => rfl
  | cons a rest ih =>
    obtain ⟨here, later⟩ := List.forall_mem_cons.mp each
    rw [List.mapM_cons, here, ih later]
    rfl

/-- Of several decorators that are mutabilities the last one counts. -/
theorem mutabilityAfter_eq (decorators : List Text) (before : Option Mutability) :
    mutabilityAfter decorators before =
      (decorators.filterMap Mutability.ofText?).getLast?.or before := by
  induction decorators generalizing before with
  | nil => rfl
  | cons first rest ih =>
    change mutabilityAfter rest ((Mutability.ofText? first).or before) = _
    rw [ih, List.filterMap_cons]
    cases Mutability.ofText? first with
    | none => rfl
    | some m =>
      rw [List.getLast?_cons]
      cases (rest.filterMap Mutability.ofText?).getLast? <;> rfl

theorem Form.exists_block (form : t.Form) (counts : t.Counts .block) :
    ∃ extent trees, t = .node .block extent trees ∧ ∀ s ∈ trees, s.Counts .statement := by
  obtain ⟨extent, trees, rfl⟩ := counts.exists_node .block rfl (by decide)
  cases form with
  | written plain => cases plain
  | block all => exact ⟨extent, trees, rfl, all⟩

/-- Trees that all count for something are all parts of their node. -/
theorem parts_eq (counts : ∀ t ∈ trees, t.Counts c) : parts (.node kind extent trees) = trees :=
  List.filter_eq_self.mpr fun t member => by rw [(counts t member).solid]; rfl

theorem valueOf_body (source : Text) (forms : ∀ s ∈ t.nodes, s.Form) (counts : t.Counts .block) :
    ∃ items, valueOf source t = .list items ∧
      items.filterMap Value.storage? = (parts t).filterMap (declaredVariable? source) ∧
      items.filterMap Value.function? = (parts t).filterMap (anyFunction? source) ∧
      items.filterMap Value.text? = (parts t).filterMap (statement? source) ∧
      wholeMutability? items = bodyMutability? source t := by
  obtain ⟨extent, trees, rfl, all⟩ :=
    Form.exists_block (forms t (Tree.mem_nodes_self counts.solid)) counts
  have below (s : Tree) (member : s ∈ trees) : ∀ u ∈ s.nodes, u.Form := fun u inside =>
    forms u (List.mem_cons_of_mem _ (Tree.mem_nodesOf.mpr ⟨s, member, inside⟩))
  refine ⟨trees.map (item source), rfl, ?_, ?_, ?_, ?_⟩
  · rw [parts_eq all, List.filterMap_map]
    exact List.filterMap_congr fun s member => storage?_item (below s member) (all s member)
  · rw [parts_eq all, List.filterMap_map]
    exact List.filterMap_congr fun s member => function?_item (below s member) (all s member)
  · rw [parts_eq all, List.filterMap_map]
    exact List.filterMap_congr fun s member => text?_item (below s member) (all s member)
  · rw [bodyMutability?, parts_eq all]
    match trees with
    | [] => rfl
    | first :: _ :: _ =>
      rw [List.map_cons, List.map_cons]
      cases item source first <;> rfl
    | [only] =>
      change wholeMutability? [item source only] = (statement? source only).bind _
      rw [← text?_item (below only List.mem_cons_self) (all only List.mem_cons_self)]
      cases item source only <;> rfl

theorem filter_item (source : Text) (trees : List Tree) :
    (trees.map (item source)).filter Value.isRecord =
      (trees.filterMap (declaration? source)).map .declaration := by
  induction trees with
  | nil => rfl
  | cons t rest ih =>
    rw [List.map_cons, List.filter_cons, ih, List.filterMap_cons, item]
    cases declaration? source t <;> rfl

theorem map_valueOf (counts : ∀ t ∈ trees, t.Counts .statement) :
    trees.map (valueOf source) = trees.map (item source) :=
  List.map_congr_left fun t member => valueOf_statement (counts t member)

theorem valueOf_plain (plain : handler? kind = none) :
    valueOf source (.node kind extent trees) =
      .text (written source (.node kind extent trees)) := by
  have category : kind.category = .text ∨ kind.category = .statement := by
    cases kind <;> first | decide | cases plain
  rw [valueOf]
  rcases category with text | statement
  · rw [text]
  · rw [statement]
    dsimp only
    rw [item, declaration?_of_plain plain, statement?_of_plain plain]
    rfl

theorem valueOf_parameters (form : t.Form) (counts : t.Counts .parameters) :
    valueOf source t = .list ((parts t).map fun p => .parameter (parameter source p)) := by
  obtain ⟨extent, trees, rfl⟩ := counts.exists_node .parameters rfl (by decide)
  cases form with
  | written plain => cases plain
  | parameters all =>
    rw [parts_eq all]
    rfl

theorem assemble_of_handler {handle : List Value → Option Value} {values : List Value}
    {value : Value} (found : handler? kind = some handle) (made : handle values = some value) :
    assemble source kind extent values = .ok value := by
  rw [assemble, found]
  dsimp only
  rw [made]

theorem parametersOf_valueOf (counts : ∀ t ∈ trees, t.Counts .parameter) :
    parametersOf (trees.map (valueOf source)) =
      some (.list (trees.map fun p => .parameter (parameter source p))) := by
  have each : (trees.map (valueOf source)).mapM Value.parameter? =
      some (trees.map (parameter source)) := by
    rw [List.mapM_map]
    exact mapM_eq_some fun t member => parameter?_valueOf (counts t member)
  rw [parametersOf, each, Option.bind_eq_bind, Option.bind_some, List.map_map]
  rfl

theorem variableOf_valueOf (extent : Option Extent) {v : Tree} (target : t.Counts .text)
    (declared : u.Counts .text) (value : v.CountsOrGap) :
    variableOf ([t, u, v].map (valueOf source)) =
      some (item source (.node .annotatedAssignment extent [t, u, v])) := by
  simp only [List.map_cons, List.map_nil, valueOf_text target, valueOf_text declared]
  rw [variableOf, optional?_valueOf value]
  rfl

theorem functionOf_valueOf (extent : Option Extent) {v : Tree} (name : SourceToken)
    (forms : ∀ s ∈ [t, v], ∀ u ∈ s.nodes, u.Form)
    (parameters : t.Counts .parameters) (returns : u.CountsOrGap) (body : v.Counts .block) :
    functionOf ([.leaf name, t, u, v].map (valueOf source)) =
      some (item source (.node .functionDefinition extent [.leaf name, t, u, v])) := by
  have first := forms t (by simp) t (Tree.mem_nodes_self parameters.solid)
  obtain ⟨items, bodyValue, _, _, _, whole⟩ :=
    valueOf_body source (forms v (by simp)) body
  have each : ((parts t).map fun p => Value.parameter (parameter source p)).mapM
      Value.parameter? = some ((parts t).map (parameter source)) := by
    rw [List.mapM_map]
    exact mapM_eq_some fun p _ => rfl
  simp only [List.map_cons, List.map_nil, valueOf_parameters first parameters, bodyValue]
  rw [valueOf, functionOf, each, optional?_valueOf returns, whole]
  rfl

theorem mapM_decorators (source : Text) (forms : ∀ t ∈ trees, t.Form)
    (counts : ∀ t ∈ trees, t.Counts .decorator) :
    (trees.map (valueOf source)).mapM Value.text? = some (trees.filterMap (decorator? source)) := by
  induction trees with
  | nil => rfl
  | cons t rest ih =>
    obtain ⟨form, forms⟩ := List.forall_mem_cons.mp forms
    obtain ⟨count, counts⟩ := List.forall_mem_cons.mp counts
    obtain ⟨w, said, value⟩ := decorator?_valueOf source form count
    rw [List.map_cons, List.mapM_cons, value, ih forms counts, List.filterMap_cons_some said]
    rfl

theorem decoratedOf_valueOf (forms : ∀ t ∈ trees ++ [u], t.Form)
    (decorators : ∀ t ∈ trees, t.Counts .decorator) (function : u.Counts .function) :
    decoratedOf ((trees ++ [u]).map (valueOf source)) =
      some (item source (.node .decoratedDefinition extent (trees ++ [u]))) := by
  obtain ⟨f, found⟩ := exists_function source (forms u (by simp)) function
  have inner : valueOf source u = .declaration (.function f) := by
    obtain ⟨_, _, rfl⟩ := function.exists_node .functionDefinition rfl (by decide)
    have declared := congrArg (Option.map Declaration.function) found
    change (match (function? source _).map Declaration.function with
      | some d => Value.declaration d
      | none => _) = _
    rw [declared]
    rfl
  have whole : declaration? source (.node .decoratedDefinition extent (trees ++ [u])) =
      some (.function (decorated source trees f)) :=
    congrArg (Option.map Declaration.function) (anyFunction?_decorated extent trees found)
  have texts := mapM_decorators source
    (fun t member => forms t (List.mem_append_left _ member)) decorators
  rw [List.map_append, List.map_singleton, inner, decoratedOf, List.getLast?_concat,
    List.dropLast_concat, texts, item, whole, decorated]
  simp only [Option.bind_eq_bind, Option.bind_some, Value.function?, mutabilityAfter_eq]
  rfl

theorem map_valueOf_definition (source : Text) (name : SourceToken) (forms : ∀ s ∈ t.nodes, s.Form)
    (body : t.Counts .block) :
    ∃ items, [.leaf name, t].map (valueOf source) = [.text name.text, .list items] ∧
      items.filterMap Value.storage? = (parts t).filterMap (declaredVariable? source) ∧
      items.filterMap Value.function? = (parts t).filterMap (anyFunction? source) ∧
      items.filterMap Value.text? = (parts t).filterMap (statement? source) := by
  obtain ⟨items, value, storage, functions, texts, _⟩ := valueOf_body source forms body
  refine ⟨items, ?_, storage, functions, texts⟩
  rw [List.map_cons, List.map_singleton, value]
  rfl

/-- Each node is made what it should be of what the trees below it should be. -/
theorem assemble_eq (source : Text) (forms : ∀ s ∈ (Tree.node kind extent trees).nodes, s.Form) :
    assemble source kind extent (trees.map (valueOf source)) =
      .ok (valueOf source (.node kind extent trees)) := by
  have below (t : Tree) (member : t ∈ trees) : ∀ s ∈ t.nodes, s.Form := fun s inside =>
    forms s (List.mem_cons_of_mem _ (Tree.mem_nodesOf.mpr ⟨t, member, inside⟩))
  have form (t : Tree) (member : t ∈ trees) (solid : t.isGap = false) : t.Form :=
    below t member t (Tree.mem_nodes_self solid)
  cases forms _ List.mem_cons_self with
  | written plain =>
    rw [assemble, plain, valueOf_plain plain]
    rfl
  | file all =>
    rw [map_valueOf all]
    exact assemble_of_handler rfl (congrArg (some ∘ Value.list) (filter_item source trees))
  | block all =>
    rw [map_valueOf all]
    rfl
  | parameters all => exact assemble_of_handler rfl (parametersOf_valueOf all)
  | expression text | decorator text | implements text =>
    rw [List.map_singleton, valueOf_text text]
    rfl
  | @storage extent t u v target declared value =>
    exact assemble_of_handler rfl (variableOf_valueOf extent target declared value)
  | @function extent t u v name parameters returns body =>
    refine assemble_of_handler rfl (functionOf_valueOf extent name ?_ parameters returns body)
    exact List.forall_mem_cons.mpr ⟨below t (by simp),
      List.forall_mem_singleton.mpr (below v (by simp))⟩
  | @decorated trees extent u decorators function =>
    refine assemble_of_handler rfl (decoratedOf_valueOf (fun t member => ?_) decorators function)
    rcases List.mem_append.mp member with decorator | last
    · exact form t member (decorators t decorator).solid
    · obtain rfl := List.mem_singleton.mp last
      exact form t member function.solid
  | typed name type =>
    rw [List.map_cons, List.map_singleton, valueOf_text type]
    rfl
  | default name value =>
    rw [List.map_cons, List.map_singleton, valueOf_text value]
    rfl
  | typedDefault name type value =>
    rw [List.map_cons, List.map_cons, List.map_singleton, valueOf_text type, valueOf_text value]
    rfl
  | event name body =>
    obtain ⟨items, values, fields, _⟩ := map_valueOf_definition source name (below _ (by simp)) body
    refine assemble_of_handler rfl ?_
    rw [values, eventOf, fields]
    rfl
  | struct name body =>
    obtain ⟨items, values, fields, _⟩ := map_valueOf_definition source name (below _ (by simp)) body
    refine assemble_of_handler rfl ?_
    rw [values, structOf, fields]
    rfl
  | flag name body =>
    obtain ⟨items, values, _, _, members⟩ :=
      map_valueOf_definition source name (below _ (by simp)) body
    refine assemble_of_handler rfl ?_
    rw [values, flagOf, members]
    rfl
  | interface name body =>
    obtain ⟨items, values, _, functions, _⟩ :=
      map_valueOf_definition source name (below _ (by simp)) body
    refine assemble_of_handler rfl ?_
    rw [values, interfaceOf, functions]
    rfl

theorem extractAll_eq (each : ∀ t ∈ trees, extract source t = .ok (valueOf source t)) :
    extractAll source trees = .ok (trees.map (valueOf source)) := by
  induction trees with
  | nil => rfl
  | cons t rest ih =>
    obtain ⟨first, later⟩ := List.forall_mem_cons.mp each
    rw [extractAll, first, ih later]
    rfl

/-- From the leaves up no tree comes out otherwise than it is read from the root down. -/
theorem extract_eq (source : Text) (t : Tree) (forms : ∀ s ∈ t.nodes, s.Form) :
    extract source t = .ok (valueOf source t) := by
  induction t using Tree.induct with
  | leaf token => rfl
  | gap => rfl
  | node kind extent trees ih =>
    have below (u : Tree) (member : u ∈ trees) : ∀ s ∈ u.nodes, s.Form := fun s inside =>
      forms s (List.mem_cons_of_mem _ (Tree.mem_nodesOf.mpr ⟨u, member, inside⟩))
    have all := extractAll_eq fun u member => ih u member (below u member)
    rw [extract, all]
    exact assemble_eq source forms

end Outline

end VyperFront
