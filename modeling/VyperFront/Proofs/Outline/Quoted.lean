import VyperFront.Proofs.Outline.Declares
import VyperFront.Tree.Preorder

/-! The types and values of a declaration are taken from the source, at nodes of the tree that
declares it. -/

namespace VyperFront

namespace Outline

/-- What is taken from the source for a parameter, its name apart. -/
def Parameter.texts (p : Parameter) : List Text := p.type.toList ++ p.value.toList

/-- What is taken from the source for a function, its name apart. -/
def Function.texts (f : Function) : List Text :=
  f.decorators ++ f.parameters.flatMap Parameter.texts ++ f.returns.toList

namespace Declaration

/-- The functions of a declaration. -/
def functions : Declaration → List Function
  | function f => [f]
  | interface _ fs => fs
  | _ => []

/-- The variables of a declaration. Its fields are some, too. -/
def stored : Declaration → List Variable
  | storage v => [v]
  | event _ vs | struct _ vs => vs
  | _ => []

/-- The types of the variables. Each is taken from an annotation, without its modifiers. -/
def types (d : Declaration) : List Text := d.stored.map Variable.type

/-- All other types, and the values and decorators. -/
def texts (d : Declaration) : List Text :=
  d.functions.flatMap Function.texts ++ d.stored.flatMap (·.value.toList)

end Declaration

variable {source s : Text} {t root : Tree} {field : Field}

/-- The text is the source at a node of the tree. -/
def Quotes (source : Text) (root : Tree) (s : Text) : Prop :=
  ∃ u ∈ root.nodes, s = u.textIn source

theorem forall₂_exists {α β : Type} {R : α → β → Prop} {as : List α} {bs : List β} {b : β}
    (related : List.Forall₂ R as bs) (member : b ∈ bs) : ∃ a ∈ as, R a b := by
  induction related with
  | nil => cases member
  | cons here _ ih =>
    rcases List.mem_cons.mp member with rfl | later
    · exact ⟨_, List.mem_cons_self, here⟩
    · obtain ⟨a, inside, related⟩ := ih later
      exact ⟨a, List.mem_cons_of_mem _ inside, related⟩

theorem solid_of_isOf {kinds : List NodeKind} (is : t.isOf kinds = true) : t.isGap = false := by
  cases t with
  | gap => cases is
  | leaf | node => rfl

theorem mem_nodes_of_childIn? {u : Tree} (within : t ∈ root.nodes)
    (found : t.childIn? field = some u) : u ∈ root.nodes := by
  obtain ⟨child, first, rfl⟩ := Option.map_eq_some_iff.mp found
  exact Tree.mem_nodes_of_child within (List.mem_of_find?_eq_some first)

theorem mem_nodes_of_mem {u : Tree} (within : t ∈ root.nodes)
    (member : u ∈ t.children.map Prod.snd) : u ∈ root.nodes := by
  obtain ⟨child, inside, rfl⟩ := List.mem_map.mp member
  exact Tree.mem_nodes_of_child within inside

theorem quotes_of_textAt? (within : t ∈ root.nodes) (found : t.textAt? source field = some s) :
    Quotes source root s := by
  obtain ⟨u, inside, rfl⟩ := Option.map_eq_some_iff.mp found
  exact ⟨u, mem_nodes_of_childIn? within inside, rfl⟩

theorem mem_nodes_of_bodyOf {u : Tree} {kinds : List NodeKind} (within : t ∈ root.nodes)
    (member : u ∈ t.bodyOf.childrenOf kinds) : u ∈ root.nodes := by
  obtain ⟨inside, _⟩ := List.mem_filter.mp member
  cases found : t.childIn? .body with
  | none =>
    rw [Tree.bodyOf, found] at inside
    cases inside
  | some body =>
    rw [Tree.bodyOf, found] at inside
    exact mem_nodes_of_mem (mem_nodes_of_childIn? within found) inside

theorem quotes_parameter {p : Parameter} (within : t ∈ root.nodes)
    (declares : t.DeclaresParameter source p) : ∀ s ∈ p.texts, Quotes source root s := by
  intro s member
  rcases List.mem_append.mp member with type | value
  · have found : p.type = some s := Option.mem_toList.mp type
    exact quotes_of_textAt? within (declares.type.symm.trans found)
  · have found : p.value = some s := Option.mem_toList.mp value
    exact quotes_of_textAt? within (declares.value.symm.trans found)

theorem quotes_function {f : Function} (within : t ∈ root.nodes)
    (declares : t.DeclaresFunction source f) : ∀ s ∈ f.texts, Quotes source root s := by
  intro s member
  obtain ⟨ps, found, each⟩ := declares.parameters
  rw [Function.texts, declares.decorators, List.nil_append] at member
  rcases List.mem_append.mp member with parameter | returns
  · obtain ⟨p, inside, text⟩ := List.mem_flatMap.mp parameter
    obtain ⟨u, below, declares⟩ := forall₂_exists each inside
    have within := mem_nodes_of_mem (mem_nodes_of_childIn? within found) below
    exact quotes_parameter within declares s text
  · have returned : f.returns = some s := Option.mem_toList.mp returns
    exact quotes_of_textAt? within (declares.returns.symm.trans returned)

theorem quotes_anyFunction {f : Function} (within : t ∈ root.nodes)
    (declares : t.DeclaresAnyFunction source f) : ∀ s ∈ f.texts, Quotes source root s := by
  rcases declares with plain | decorated
  · exact quotes_function within plain
  · obtain ⟨decorators, inner, plain, children, said, declares, same⟩ := decorated.parts
    have below (u : Tree) (inside : u ∈ decorators ++ [inner]) : u ∈ root.nodes :=
      mem_nodes_of_mem within (children ▸ inside)
    have parameters : f.parameters = plain.parameters := by rw [same]
    have returns : f.returns = plain.returns := by rw [same]
    intro s member
    rw [Function.texts, parameters, returns, List.append_assoc] at member
    rcases List.mem_append.mp member with decorator | rest
    · obtain ⟨u, inside, _, children⟩ := forall₂_exists said decorator
      obtain ⟨child, only, rfl⟩ := List.map_eq_singleton_iff.mp children
      have within := below u (List.mem_append_left _ inside)
      exact ⟨child.2, Tree.mem_nodes_of_child within (by simp [only]), rfl⟩
    · apply quotes_function (below inner (by simp)) declares
      rw [Function.texts, declares.decorators]
      exact rest

theorem quotes_variable {v : Variable} (within : t ∈ root.nodes)
    (declares : t.DeclaresVariable source v) :
    (∀ s ∈ v.value, Quotes source root s) ∧
      ∃ s, Quotes source root s ∧ (Modifier.split s).2 = v.type := by
  constructor
  · intro s found
    exact quotes_of_textAt? within (declares.value.symm.trans found)
  · obtain ⟨s, found, split⟩ := Option.map_eq_some_iff.mp declares.type
    exact ⟨s, quotes_of_textAt? within found, congrArg Prod.snd split⟩

/-- What a tree declares has its functions and variables below it. -/
theorem parts_of_declares {d : Declaration} (declares : root.Declares source d)
    (solid : root.isGap = false) :
    (∀ f ∈ d.functions, ∃ t ∈ root.nodes, t.DeclaresAnyFunction source f) ∧
      ∀ v ∈ d.stored, ∃ t ∈ root.nodes, t.DeclaresVariable source v := by
  have self := Tree.mem_nodes_self solid
  have fields {vs : List Variable} (each : List.Forall₂ (Tree.DeclaresVariable source)
      (root.bodyOf.childrenOf [.annotatedAssignment]) vs) (v : Variable) (member : v ∈ vs) :
      ∃ t ∈ root.nodes, t.DeclaresVariable source v := by
    obtain ⟨t, inside, declares⟩ := forall₂_exists each member
    exact ⟨t, mem_nodes_of_bodyOf self inside, declares⟩
  cases declares with
  | function declares => exact ⟨List.forall_mem_singleton.mpr ⟨root, self, declares⟩, nofun⟩
  | storage declares => exact ⟨nofun, List.forall_mem_singleton.mpr ⟨root, self, declares⟩⟩
  | implements | flag => exact ⟨nofun, nofun⟩
  | event _ each => exact ⟨nofun, fields each⟩
  | struct _ each => exact ⟨nofun, fields each⟩
  | interface _ each =>
    refine ⟨fun f member => ?_, nofun⟩
    obtain ⟨t, inside, declares⟩ := forall₂_exists each member
    exact ⟨t, mem_nodes_of_bodyOf self inside, declares⟩

/-- The types and values of a declaration are taken from the source at nodes of its tree. -/
theorem quotes_declaration {d : Declaration} (declares : root.Declares source d)
    (solid : root.isGap = false) :
    (∀ s ∈ d.texts, Quotes source root s) ∧
      ∀ type ∈ d.types, ∃ s, Quotes source root s ∧ (Modifier.split s).2 = type := by
  obtain ⟨functions, stored⟩ := parts_of_declares declares solid
  refine ⟨fun s member => ?_, fun type member => ?_⟩
  · rcases List.mem_append.mp member with function | value
    · obtain ⟨f, inside, text⟩ := List.mem_flatMap.mp function
      obtain ⟨t, within, declares⟩ := functions f inside
      exact quotes_anyFunction within declares s text
    · obtain ⟨v, inside, found⟩ := List.mem_flatMap.mp value
      obtain ⟨t, within, declares⟩ := stored v inside
      exact (quotes_variable within declares).1 s (Option.mem_toList.mp found)
  · obtain ⟨v, inside, rfl⟩ := List.mem_map.mp member
    obtain ⟨t, within, declares⟩ := stored v inside
    exact (quotes_variable within declares).2

end Outline

end VyperFront
