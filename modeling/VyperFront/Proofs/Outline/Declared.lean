import VyperFront.Proofs.Outline.Declares
import VyperFront.Proofs.Outline.Extraction
import VyperFront.Proofs.Tree.Geometry

namespace VyperFront

open Outline

namespace Outline

/-- The tree has a form, and what is written is the source at it. -/
def Known (source : Text) (t : Tree) : Prop := t.Form ∧ written source t = t.textIn source

variable {source : Text} {t u v : Tree} {kind : NodeKind} {extent : Option Extent}
  {trees : List Tree}

theorem parts_eq_children (t : Tree) : parts t = t.children.map Prod.snd := by
  cases t with
  | node kind extent trees => exact Tree.map_snd_children.symm
  | leaf | gap => rfl

theorem forall₂_filterMap {α β : Type} {R : α → β → Prop} {p : α → Bool} {f : α → Option β}
    {as : List α}
    (each : ∀ a ∈ as, (p a = true ∧ ∃ b, f a = some b ∧ R a b) ∨ (p a = false ∧ f a = none)) :
    List.Forall₂ R (as.filter p) (as.filterMap f) := by
  induction as with
  | nil => exact .nil
  | cons a rest ih =>
    obtain ⟨here, later⟩ := List.forall_mem_cons.mp each
    rcases here with ⟨selected, b, found, related⟩ | ⟨omitted, none⟩
    · rw [List.filter_cons_of_pos selected, List.filterMap_cons_some found]
      exact .cons related (ih later)
    · rw [List.filter_cons_of_neg (by simp [omitted]), List.filterMap_cons_none none]
      exact ih later

theorem known_below (known : ∀ s ∈ (Tree.node kind extent trees).nodes, Known source s)
    (member : t ∈ trees) : ∀ s ∈ t.nodes, Known source s := fun s inside =>
  known s (List.mem_cons_of_mem _ (Tree.mem_nodesOf.mpr ⟨t, member, inside⟩))

theorem written_eq (known : ∀ s ∈ (Tree.node kind extent trees).nodes, Known source s)
    (member : t ∈ trees) (solid : t.isGap = false) : written source t = t.textIn source :=
  (known_below known member t (Tree.mem_nodes_self solid)).2

/-- What may be left out is read alike in the tree and from what is written. -/
theorem optional_eq (known : ∀ s ∈ (Tree.node kind extent trees).nodes, Known source s)
    (member : t ∈ trees) (counts : t.CountsOrGap) :
    optional source t = if t.isGap then none else some (t.textIn source) := by
  rcases counts with text | rfl
  · have same := written_eq known member text.solid
    rw [text.solid, ← same]
    cases t with
    | gap => cases text.solid
    | leaf | node => rfl
  · rfl

theorem childIn?_eq (field : Field) : (Tree.node kind extent trees).childIn? field =
    ((trees.zipIdx.filter (!·.1.isGap)).find? (kind.field? ·.2 == some field)).map Prod.fst := by
  rw [Tree.childIn?, Tree.children, List.find?_map, Option.map_map]
  rfl

@[simp] theorem isGap_leaf (token : SourceToken) : (Tree.leaf token).isGap = false := rfl

/-- The trees below a node by the fields of its kind. -/
theorem textAt?_eq (field : Field) : (Tree.node kind extent trees).textAt? source field =
    ((trees.zipIdx.filter (!·.1.isGap)).find? (kind.field? ·.2 == some field)).map
      (·.1.textIn source) := by
  rw [Tree.textAt?, childIn?_eq, Option.map_map]
  rfl

theorem declaresParameter (known : ∀ s ∈ t.nodes, Known source s) (counts : t.Counts .parameter) :
    t.DeclaresParameter source (parameter source t) := by
  have self := known t (Tree.mem_nodes_self counts.solid)
  cases self.1 with
  | gap => cases counts.solid
  | leaf token => exact ⟨self.2, rfl, rfl⟩
  | @typed extent type name counted =>
    have named := written_eq known (t := .leaf name) (by simp) rfl
    have typed := written_eq known (t := type) (by simp) counted.solid
    constructor <;>
      simp [textAt?_eq, parameter, NodeKind.field?, NodeKind.fields, counted.solid, named, typed]
  | @default extent value name counted =>
    have named := written_eq known (t := .leaf name) (by simp) rfl
    have given := written_eq known (t := value) (by simp) counted.solid
    constructor <;>
      simp [textAt?_eq, parameter, NodeKind.field?, NodeKind.fields, counted.solid, named, given]
  | @typedDefault extent type value name first second =>
    have named := written_eq known (t := .leaf name) (by simp) rfl
    have typed := written_eq known (t := type) (by simp) first.solid
    have given := written_eq known (t := value) (by simp) second.solid
    constructor <;>
      simp [textAt?_eq, parameter, NodeKind.field?, NodeKind.fields, first.solid, second.solid,
        named, typed, given]
  | @written kind extent trees plain =>
    have checked : ∀ kind ∈ NodeKind.all, kind.category.within .parameter = true →
        (handler? kind).isSome = true := by decide
    have handled := checked kind kind.mem_all counts.within
    rw [plain] at handled
    cases handled
  | _ => obtain ⟨_, ⟨⟩, ⟨⟩⟩ := counts

theorem declaresVariable
    (known : ∀ s ∈ (Tree.node .annotatedAssignment extent [t, u, v]).nodes, Known source s)
    (target : t.Counts .text) (declared : u.Counts .text) (value : v.CountsOrGap) :
    (Tree.node .annotatedAssignment extent [t, u, v]).DeclaresVariable source
      ⟨written source t, (Modifier.split (written source u)).2,
        (Modifier.split (written source u)).1, optional source v⟩ := by
  have named := written_eq known (t := t) (by simp) target.solid
  have typed := written_eq known (t := u) (by simp) declared.solid
  have given := optional_eq known (t := v) (by simp) value
  refine ⟨rfl, ?_, ?_, ?_⟩
  · simp [textAt?_eq, NodeKind.field?, NodeKind.fields, target.solid, named]
  · simp [textAt?_eq, NodeKind.field?, NodeKind.fields, target.solid, declared.solid, typed]
  · cases gap : v.isGap <;>
      simp [textAt?_eq, NodeKind.field?, NodeKind.fields, target.solid, declared.solid, given, gap]

theorem statement?_eq (known : ∀ s ∈ t.nodes, Known source s) (counts : t.Counts .statement) :
    statement? source t = t.saying? source := by
  have self := known t (Tree.mem_nodes_self counts.solid)
  cases self.1 with
  | gap => obtain ⟨_, ⟨⟩, _⟩ := counts
  | @written kind extent trees plain =>
    rw [statement?_of_plain plain, self.2]
    cases kind <;> first | rfl | cases plain
  | @expression extent e text =>
    have same := written_eq known (t := e) (by simp) text.solid
    simp [statement?, Tree.saying?, Tree.kind?, Tree.children, text.solid, same]
  | storage | function | implements | event | struct | flag | interface | decorated => rfl
  | _ => obtain ⟨_, ⟨⟩, ⟨⟩⟩ := counts

theorem known_body (known : ∀ s ∈ t.nodes, Known source s) (counts : t.Counts .block) :
    ∀ s ∈ t.children.map Prod.snd,
      s.Counts .statement ∧ ∀ r ∈ s.nodes, Known source r := by
  obtain ⟨extent, trees, rfl, all⟩ :=
    Form.exists_block (known t (Tree.mem_nodes_self counts.solid)).1 counts
  rw [← parts_eq_children, parts_eq all]
  exact fun s member => ⟨all s member, known_below known member⟩

theorem sayings_eq (known : ∀ s ∈ t.nodes, Known source s) (counts : t.Counts .block) :
    (parts t).filterMap (statement? source) = t.sayings source := by
  rw [parts_eq_children]
  exact List.filterMap_congr fun s member =>
    statement?_eq (known_body known counts s member).2 (known_body known counts s member).1

theorem bodyMutability?_eq (known : ∀ s ∈ t.nodes, Known source s) (counts : t.Counts .block) :
    bodyMutability? source t = if t.children.length = 1
      then (t.sayings source).head?.bind Mutability.ofText? else none := by
  rw [bodyMutability?, ← sayings_eq known counts, parts_eq_children, ← List.length_map (f := Prod.snd)]
  rcases t.children.map Prod.snd with _ | ⟨only, _ | ⟨second, rest⟩⟩
  · rfl
  · simp
  · simp

theorem forall₂_map {α β : Type} {R : α → β → Prop} {f : α → β} {as : List α}
    (each : ∀ a ∈ as, R a (f a)) : List.Forall₂ R as (as.map f) :=
  List.forall₂_map_right_iff.mpr (List.forall₂_same.mpr each)

theorem declaresParameters (known : ∀ s ∈ t.nodes, Known source s) (counts : t.Counts .parameters) :
    List.Forall₂ (Tree.DeclaresParameter source) (t.children.map Prod.snd)
      ((parts t).map (parameter source)) := by
  obtain ⟨extent, trees, rfl⟩ := counts.exists_node .parameters rfl (by decide)
  cases (known _ List.mem_cons_self).1 with
  | written plain => cases plain
  | parameters all =>
    rw [← parts_eq_children, parts_eq all]
    exact forall₂_map fun p member => declaresParameter (known_below known member) (all p member)

theorem declaresFunction (known : ∀ s ∈ t.nodes, Known source s) (counts : t.Counts .function) :
    ∃ f, function? source t = some f ∧ t.DeclaresFunction source f := by
  obtain ⟨extent, trees, rfl⟩ := counts.exists_node .functionDefinition rfl (by decide)
  cases (known _ List.mem_cons_self).1 with
  | written plain => cases plain
  | @function extent ps returned b name parameters returns body =>
    have named := written_eq known (t := .leaf name) (by simp) rfl
    have given := optional_eq known (t := returned) (by simp) returns
    refine ⟨_, rfl, rfl, ?_, ⟨ps, ?_, ?_⟩, ?_, rfl, ?_⟩
    · simp [textAt?_eq, NodeKind.field?, NodeKind.fields, named]
    · simp [childIn?_eq, NodeKind.field?, NodeKind.fields, parameters.solid]
    · exact declaresParameters (known_below known (by simp)) parameters
    · cases gap : returned.isGap <;>
        simp [textAt?_eq, NodeKind.field?, NodeKind.fields, parameters.solid, body.solid, given, gap]
    · have inside : (Tree.node .functionDefinition extent [.leaf name, ps, returned, b]).bodyOf =
          b := by
        cases gap : returned.isGap <;>
          simp [Tree.bodyOf, childIn?_eq, NodeKind.field?, NodeKind.fields, parameters.solid,
            body.solid, gap]
      rw [inside]
      exact bodyMutability?_eq (known_below known (by simp)) body

theorem decorates (known : ∀ s ∈ t.nodes, Known source s) (counts : t.Counts .decorator) :
    ∃ said, decorator? source t = some said ∧ t.Decorates source said := by
  obtain ⟨extent, trees, rfl⟩ := counts.exists_node .decorator rfl (by decide)
  cases (known _ List.mem_cons_self).1 with
  | written plain => cases plain
  | @decorator extent e text =>
    have same := written_eq known (t := e) (by simp) text.solid
    exact ⟨_, rfl, rfl, by simp [Tree.children, text.solid, same]⟩

theorem declaresDecorated
    (known : ∀ s ∈ (Tree.node .decoratedDefinition extent (trees ++ [u])).nodes, Known source s)
    (decorators : ∀ t ∈ trees, t.Counts .decorator) (function : u.Counts .function) :
    ∃ f, anyFunction? source (.node .decoratedDefinition extent (trees ++ [u])) = some f ∧
      (Tree.node .decoratedDefinition extent (trees ++ [u])).DeclaresDecorated source f := by
  obtain ⟨plain, found, declares⟩ := declaresFunction (known_below known (by simp)) function
  refine ⟨_, anyFunction?_decorated extent trees found, rfl, trees, u, plain, ?_, ?_, declares, rfl⟩
  · rw [Tree.map_snd_children, List.filter_eq_self]
    intro s member
    rcases List.mem_append.mp member with decorator | last
    · rw [(decorators s decorator).solid]
      rfl
    · rw [List.mem_singleton.mp last, function.solid]
      rfl
  · have selected := forall₂_filterMap (R := Tree.Decorates source) (p := fun _ => true)
      (f := decorator? source) fun s member => .inl ⟨rfl, decorates (known_below known
        (List.mem_append_left _ member)) (decorators s member)⟩
    rw [List.filter_true] at selected
    exact selected

theorem variable_cases (known : ∀ s ∈ t.nodes, Known source s) (counts : t.Counts .statement) :
    (t.isOf [.annotatedAssignment] = true ∧
      ∃ v, declaredVariable? source t = some v ∧ t.DeclaresVariable source v) ∨
    (t.isOf [.annotatedAssignment] = false ∧ declaredVariable? source t = none) := by
  cases (known t (Tree.mem_nodes_self counts.solid)).1 with
  | gap => obtain ⟨_, ⟨⟩, _⟩ := counts
  | @written kind extent trees plain =>
    refine .inr ⟨?_, declaredVariable?_of_plain plain⟩
    cases kind <;> first | rfl | cases plain
  | storage target declared value =>
    exact .inl ⟨rfl, _, rfl, declaresVariable known target declared value⟩
  | expression | function | implements | event | struct | flag | interface | decorated =>
    exact .inr ⟨rfl, rfl⟩
  | _ => obtain ⟨_, ⟨⟩, ⟨⟩⟩ := counts

theorem function_cases (known : ∀ s ∈ t.nodes, Known source s) (counts : t.Counts .statement) :
    (t.isOf [.functionDefinition, .decoratedDefinition] = true ∧
      ∃ f, anyFunction? source t = some f ∧ t.DeclaresAnyFunction source f) ∨
    (t.isOf [.functionDefinition, .decoratedDefinition] = false ∧
      anyFunction? source t = none) := by
  cases (known t (Tree.mem_nodes_self counts.solid)).1 with
  | gap => obtain ⟨_, ⟨⟩, _⟩ := counts
  | @written kind extent trees plain =>
    refine .inr ⟨?_, anyFunction?_of_plain plain⟩
    cases kind <;> first | rfl | cases plain
  | function =>
    obtain ⟨f, found, declares⟩ := declaresFunction known ⟨.function, rfl, rfl⟩
    exact .inl ⟨rfl, f, found, .inl declares⟩
  | decorated decorators function =>
    obtain ⟨f, found, declares⟩ := declaresDecorated known decorators function
    exact .inl ⟨rfl, f, found, .inr declares⟩
  | expression | storage | implements | event | struct | flag | interface =>
    exact .inr ⟨rfl, rfl⟩
  | _ => obtain ⟨_, ⟨⟩, ⟨⟩⟩ := counts

section Body

variable (known : ∀ s ∈ t.nodes, Known source s) (counts : t.Counts .block)
include known counts

theorem declaresFields :
    List.Forall₂ (Tree.DeclaresVariable source) (t.childrenOf [.annotatedAssignment])
      ((parts t).filterMap (declaredVariable? source)) := by
  rw [parts_eq_children]
  exact forall₂_filterMap fun s member =>
    variable_cases (known_body known counts s member).2 (known_body known counts s member).1

theorem declaresFunctions :
    List.Forall₂ (Tree.DeclaresAnyFunction source)
      (t.childrenOf [.functionDefinition, .decoratedDefinition])
      ((parts t).filterMap (anyFunction? source)) := by
  rw [parts_eq_children]
  exact forall₂_filterMap fun s member =>
    function_cases (known_body known counts s member).2 (known_body known counts s member).1

end Body

theorem defines {name : SourceToken}
    (known : ∀ s ∈ (Tree.node kind extent [.leaf name, u]).nodes, Known source s)
    (fields : kind.fields = [.name, .body]) (body : u.Counts .block) :
    (Tree.node kind extent [.leaf name, u]).Defines source kind name.text ∧
      (Tree.node kind extent [.leaf name, u]).bodyOf = u := by
  have named := written_eq known (t := .leaf name) (by simp) rfl
  refine ⟨⟨rfl, ?_⟩, ?_⟩
  · simp [textAt?_eq, NodeKind.field?, fields, ← named, written]
  · simp [Tree.bodyOf, childIn?_eq, NodeKind.field?, fields, body.solid]

/-- What declares something declares what the outline has, other statements nothing. -/
theorem declaration_cases (known : ∀ s ∈ t.nodes, Known source s) (counts : t.Counts .statement) :
    (t.isOf Tree.declaring = true ∧
      ∃ d, declaration? source t = some d ∧ t.Declares source d) ∨
    (t.isOf Tree.declaring = false ∧ declaration? source t = none) := by
  cases (known t (Tree.mem_nodes_self counts.solid)).1 with
  | gap => obtain ⟨_, ⟨⟩, _⟩ := counts
  | @written kind extent trees plain =>
    refine .inr ⟨?_, declaration?_of_plain plain⟩
    cases kind <;> first | rfl | cases plain
  | expression => exact .inr ⟨rfl, rfl⟩
  | storage target declared value =>
    exact .inl ⟨rfl, _, rfl, .storage (declaresVariable known target declared value)⟩
  | function =>
    obtain ⟨f, found, declares⟩ := declaresFunction known ⟨.function, rfl, rfl⟩
    exact .inl ⟨rfl, .function f, congrArg (Option.map _) found, .function (.inl declares)⟩
  | decorated decorators function =>
    obtain ⟨f, found, declares⟩ := declaresDecorated known decorators function
    exact .inl ⟨rfl, .function f, congrArg (Option.map _) found, .function (.inr declares)⟩
  | @implements extent name text =>
    have same := written_eq known (t := name) (by simp) text.solid
    refine .inl ⟨rfl, _, rfl, .implements rfl ?_⟩
    simp [textAt?_eq, NodeKind.field?, NodeKind.fields, text.solid, same]
  | @event extent u name body =>
    obtain ⟨defines, inside⟩ := defines known rfl body
    refine .inl ⟨rfl, _, rfl, .event defines ?_⟩
    rw [inside]
    exact declaresFields (known_below known (by simp)) body
  | @struct extent u name body =>
    obtain ⟨defines, inside⟩ := defines known rfl body
    refine .inl ⟨rfl, _, rfl, .struct defines ?_⟩
    rw [inside]
    exact declaresFields (known_below known (by simp)) body
  | @interface extent u name body =>
    obtain ⟨defines, inside⟩ := defines known rfl body
    refine .inl ⟨rfl, _, rfl, .interface defines ?_⟩
    rw [inside]
    exact declaresFunctions (known_below known (by simp)) body
  | @flag extent u name body =>
    obtain ⟨defines, inside⟩ := defines known rfl body
    have said := sayings_eq (known_below known (by simp)) body
    refine .inl ⟨rfl, .flag name.text ((u.sayings source).filter (· ≠ "pass".toList)), ?_, ?_⟩
    · rw [← said]
      rfl
    · have declares := Tree.Declares.flag defines
      rw [inside] at declares
      exact declares
  | _ => obtain ⟨_, ⟨⟩, ⟨⟩⟩ := counts

theorem slice_min (source : Text) (start stop : Nat) :
    source.slice start (min stop source.length) = source.slice start stop := by
  rw [Text.slice, Text.slice, List.take_eq_take_iff, List.length_drop]
  omega

end Outline

theorem Derivation.Derives.exists_sourceFile {d : Derivation} {tokens : List SourceToken}
    {tree : Tree} (derives : d.Derives .sourceFile tokens) (trees : d.trees = [tree]) :
    ∃ extent below, tree = .node .sourceFile extent below := by
  rcases derives.cases_sourceFile with rfl | ⟨items, _, _, rfl⟩
  · exact ⟨_, _, (List.singleton_inj.mp trees).symm⟩
  · exact ⟨_, _, (List.singleton_inj.mp trees).symm⟩

namespace Parse

variable {p : Parse}

theorem outline_eq (clean : p.errors = []) :
    p.outline = (parts p.root).filterMap (declaration? p.text) := by
  rw [Parse.outline, Parse.outcome_eq_ok_iff.mp ⟨clean, rfl⟩]

end Parse

namespace Parser

variable {c : Config} {source : Source} {p : Parse}

theorem exists_forms
    (parsed : (Parser.empty.setLanguage (Artifact.language c)).parse source = .ok p)
    (clean : p.errors = []) :
    (∃ extent trees, p.root = .node .sourceFile extent trees) ∧ ∀ t ∈ p.root.nodes, t.Form := by
  obtain ⟨_, d, _, _, derives, trees⟩ := Parser.exists_derivation parsed clean
  refine ⟨derives.exists_sourceFile trees, fun t member => ?_⟩
  apply Tree.Framed.form
  apply derives.valid.framed
  rw [trees]
  exact Tree.mem_nodesOf.mpr ⟨_, List.mem_cons_self, member⟩

/-- What is written is the source, but for the tree of an empty source. -/
theorem written_root
    (parsed : (Parser.empty.setLanguage (Artifact.language c)).parse source = .ok p)
    (clean : p.errors = []) :
    p.root = .node .sourceFile none [] ∨
      ∀ t ∈ p.root.nodes, Outline.written p.text t = t.textIn p.text := by
  obtain ⟨_, _, leaves, nodes⟩ := exists_settled parsed clean
  refine nodes.imp_right fun settled t member => ?_
  cases t with
  | leaf token =>
    obtain ⟨_, found, within⟩ := leaves token (Tree.mem_leaves.mpr member)
    exact (found.slice_eq.symm.trans (Reading.slice_ended within))
  | node kind extent trees =>
    obtain ⟨e, found, _⟩ := settled _ member
    obtain rfl : extent = some e := found
    exact (slice_min p.text e.start.offset e.stop.offset).symm
  | gap =>
    obtain ⟨_, ⟨⟩, _⟩ := settled _ member

/-- The declarations of the outline are those of the children of the root. -/
theorem declares_outline
    (parsed : (Parser.empty.setLanguage (Artifact.language c)).parse source = .ok p)
    (clean : p.errors = []) :
    List.Forall₂ (Tree.Declares p.text) (p.root.childrenOf Tree.declaring) p.outline := by
  obtain ⟨⟨extent, trees, root⟩, forms⟩ := exists_forms parsed clean
  have written := written_root parsed clean
  rw [Parse.outline_eq clean]
  rw [root] at forms written ⊢
  cases forms _ List.mem_cons_self with
  | written plain => cases plain
  | file all =>
    rw [Tree.childrenOf, ← parts_eq_children, parts_eq all]
    apply forall₂_filterMap
    intro t member
    apply declaration_cases _ (all t member)
    rcases written with empty | written
    · cases empty
      cases member
    · exact known_below (fun s inside => ⟨forms s inside, written s inside⟩) member

/-- From the leaves up the root becomes the outline. -/
theorem extract_outline
    (parsed : (Parser.empty.setLanguage (Artifact.language c)).parse source = .ok p)
    (clean : p.errors = []) :
    extract p.text p.root = .ok (.list (p.outline.map .declaration)) := by
  obtain ⟨⟨extent, trees, root⟩, forms⟩ := exists_forms parsed clean
  have extracted := extract_eq p.text p.root forms
  rw [Parse.outline_eq clean]
  rw [root] at forms extracted ⊢
  cases forms _ List.mem_cons_self with
  | written plain => cases plain
  | file all =>
    rw [parts_eq all]
    exact extracted

/-- From the leaves up no node of a source without errors is a misfit, and what comes out is the
outline. It has one declaration for each child of the root that declares something, in order. -/
theorem parse_outline
    (parsed : (Parser.empty.setLanguage (Artifact.language c)).parse source = .ok p)
    (clean : p.errors = []) :
    extract p.text p.root = .ok (.list (p.outline.map .declaration)) ∧
      List.Forall₂ (Tree.Declares p.text) (p.root.childrenOf Tree.declaring) p.outline :=
  ⟨extract_outline parsed clean, declares_outline parsed clean⟩

/-! A source that declares a variable with a modifier and a value. -/

namespace Sample

def storage : Text := "x: public(t) = (a + b) * c\n".toList

/-- What the lexer reads in it. -/
def storageTokens : List SourceToken :=
  [⟨.name, "x".toList, ⟨⟨0, 1, 1⟩, ⟨1, 1, 2⟩⟩⟩,
    ⟨.colon, ":".toList, ⟨⟨1, 1, 2⟩, ⟨2, 1, 3⟩⟩⟩,
    ⟨.name, "public".toList, ⟨⟨3, 1, 4⟩, ⟨9, 1, 10⟩⟩⟩,
    ⟨.leftParen, "(".toList, ⟨⟨9, 1, 10⟩, ⟨10, 1, 11⟩⟩⟩,
    ⟨.name, "t".toList, ⟨⟨10, 1, 11⟩, ⟨11, 1, 12⟩⟩⟩,
    ⟨.rightParen, ")".toList, ⟨⟨11, 1, 12⟩, ⟨12, 1, 13⟩⟩⟩,
    ⟨.equal, "=".toList, ⟨⟨13, 1, 14⟩, ⟨14, 1, 15⟩⟩⟩,
    ⟨.leftParen, "(".toList, ⟨⟨15, 1, 16⟩, ⟨16, 1, 17⟩⟩⟩,
    ⟨.name, "a".toList, ⟨⟨16, 1, 17⟩, ⟨17, 1, 18⟩⟩⟩,
    ⟨.plus, "+".toList, ⟨⟨18, 1, 19⟩, ⟨19, 1, 20⟩⟩⟩,
    ⟨.name, "b".toList, ⟨⟨20, 1, 21⟩, ⟨21, 1, 22⟩⟩⟩,
    ⟨.rightParen, ")".toList, ⟨⟨21, 1, 22⟩, ⟨22, 1, 23⟩⟩⟩,
    ⟨.star, "*".toList, ⟨⟨23, 1, 24⟩, ⟨24, 1, 25⟩⟩⟩,
    ⟨.name, "c".toList, ⟨⟨25, 1, 26⟩, ⟨26, 1, 27⟩⟩⟩,
    ⟨.newline, "\n".toList, ⟨⟨26, 1, 27⟩, ⟨27, 2, 1⟩⟩⟩]

theorem tokenizes_storage : Lexer.Tokenizes .spelled ⟨storage, .start⟩ storageTokens :=
  Lexer.tokenizes_of_parts rfl rfl rfl

/-- Phrases that each pass on the tree of the one before. -/
def climb (d : Derivation) (phrases : List Nonterminal) : Derivation := phrases.foldl single d

/-- A condition or value from what a name or brackets are. -/
def testOf (primary : Derivation) : Derivation :=
  climb primary [.prefixedCall, .power, .factor, .term, .arithExpr, .shiftExpr, .andExpr, .xorExpr,
    .expr, .comparison, .notTest, .andTest, .orTest, .test]

/-- A name that something is done to. -/
def operand (name : SourceToken) : Derivation :=
  climb (.token name) [.atom, .primary, .prefixedCall, .power, .factor]

def binary (n : Nonterminal) (left operator right : Derivation) : Derivation :=
  .phrase ⟨n, .node .binaryOperator,
    [.kept left.symbol, .kept operator.symbol, .kept right.symbol]⟩ [left, operator, right]

/-- A line that declares a variable with a value. -/
def annotated (target colon : SourceToken) (type : Derivation) (equal : SourceToken)
    (value : Derivation) (newline : SourceToken) : Derivation :=
  let declared : Derivation :=
    .phrase ⟨.annotatedAssignment, .node .annotatedAssignment, [.kept (.nonterminal .testlist),
        .dropped (.terminal .colon), .kept (.nonterminal .test), .dropped (.terminal .equal),
        .kept (.nonterminal .test)]⟩
      [single (test target) .testlist, .token colon, type, .token equal, value]
  let line : Derivation :=
    .phrase ⟨.simpleStatements, .splice,
        [.kept (.nonterminal .smallStatement), .dropped (.terminal .newline)]⟩
      [splice declared .smallStatement, .token newline]
  .phrase ⟨.sourceFile, .node .sourceFile, [.kept (.nonterminal .fileItems)]⟩
    [[.statement, .fileItems].foldl splice line]

private def storageType : Derivation :=
  testOf <| .phrase ⟨.primary, .node .call,
      [.kept (.nonterminal .primary), .kept (.nonterminal .argumentList)]⟩
    [climb (.token storageTokens[2]) [.atom, .primary],
      .phrase ⟨.argumentList, .node .argumentList, [.dropped (.terminal .leftParen),
          .kept (.nonterminal .arguments), .dropped (.terminal .rightParen)]⟩
        [.token storageTokens[3],
          splice (single (test storageTokens[4]) .argument) .arguments,
          .token storageTokens[5]]]

private def storageSum : Derivation :=
  binary .arithExpr (climb (operand storageTokens[8]) [.term, .arithExpr])
    (splice (.token storageTokens[9]) .addOperator) (climb (operand storageTokens[10]) [.term])

private def storageValue : Derivation :=
  let inside := climb storageSum [.shiftExpr, .andExpr, .xorExpr, .expr, .comparison, .notTest,
    .andTest, .orTest, .test]
  let bracketed : Derivation :=
    .phrase ⟨.atom, .pass, [.dropped (.terminal .leftParen), .kept (.nonterminal .test),
        .dropped (.terminal .rightParen)]⟩
      [.token storageTokens[7], inside, .token storageTokens[11]]
  climb (binary .term (climb bracketed [.primary, .prefixedCall, .power, .factor, .term])
      (splice (.token storageTokens[12]) .multiplyOperator) (operand storageTokens[13]))
    [.arithExpr, .shiftExpr, .andExpr, .xorExpr, .expr, .comparison, .notTest, .andTest, .orTest,
      .test]

def storageDerivation : Derivation :=
  annotated storageTokens[0] storageTokens[1] storageType storageTokens[6] storageValue
    storageTokens[14]

def storageRoot : Tree := storageDerivation.trees.headD .gap

set_option maxRecDepth 4000 in
theorem exists_parse_storage :
    ∃ p, (Parser.empty.setLanguage (Artifact.language .default)).parse (.text storage) = .ok p ∧
      p.errors = [] ∧ p.root = storageRoot ∧ p.text = storage ∧
      p.outline = [.storage ⟨"x".toList, "t".toList, [.public], some "(a + b) * c".toList⟩] := by
  have derived : Reading.Derived .eight storage storageDerivation :=
    ⟨storageTokens, tokenizes_storage, by decide, by decide, rfl, rfl⟩
  obtain ⟨p, parsed, clean, root, text⟩ := Parser.exists_parse .default derived rfl
  refine ⟨p, parsed, clean, root, text, ?_⟩
  rw [Parse.outline_eq clean, root, text]
  rfl

end Sample

/-- The only child of the root declares the only variable. -/
theorem parse_outline_storage : ∃ p : Parse,
    (Parser.empty.setLanguage (Artifact.language .default)).parse (.text Sample.storage) = .ok p ∧
      p.errors = [] ∧ p.root = Sample.storageRoot ∧
      p.outline = [.storage ⟨"x".toList, "t".toList, [.public], some "(a + b) * c".toList⟩] ∧
      extract p.text p.root = .ok (.list (p.outline.map .declaration)) ∧
      List.Forall₂ (Tree.Declares p.text) (p.root.childrenOf Tree.declaring) p.outline := by
  obtain ⟨p, parsed, clean, root, _, outline⟩ := Sample.exists_parse_storage
  exact ⟨p, parsed, clean, root, outline, parse_outline parsed clean⟩

end Parser

end VyperFront
