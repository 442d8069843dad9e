import VyperFront.Proofs.Automaton.Prediction
import VyperFront.Proofs.Expression.Syntax
import VyperFront.Proofs.Grammar.Derivation
import VyperFront.Proofs.Lexer.Alone

namespace VyperFront

/-- The symbol can be derived to the tokens, which brings trees with these views. -/
structure Shows (s : Symbol) (tokens : List SourceToken) (views : List View) : Prop where
  legible : ∀ t ∈ tokens, t.Legible ∧ t = written t.kind t.text
  derived : ∃ d : Derivation, d.Valid ∧ d.symbol = s ∧ d.yield = tokens ∧
    (∀ t ∈ d.trees, t.isGap = false) ∧ d.trees.map Tree.view = views

/-- The symbols of the slots show the tokens, and those that are kept show the views. -/
inductive Fits : List Slot → List SourceToken → List View → Prop where
  | nil : Fits [] [] []
  | kept (shows : Shows s first views) (rest : Fits slots tokens more) :
    Fits (.kept s :: slots) (first ++ tokens) (views ++ more)
  | dropped (shows : Shows s first views) (rest : Fits slots tokens more) :
    Fits (.dropped s :: slots) (first ++ tokens) more

/-- What a rule of the shape makes of the trees in it. -/
@[simp] def Shape.views : Shape → List View → List View
  | .node kind, views => [.node kind (View.labelled kind 0 views)]
  | _, views => views

/-- The phrase shows the tokens, which bring one tree with the view. -/
abbrev Nonterminal.Shows (n : Nonterminal) (tokens : List SourceToken) (view : View) : Prop :=
  VyperFront.Shows (.nonterminal n) tokens [view]

variable {n m : Nonterminal} {k : Terminal} {slots : List Slot} {tokens first : List SourceToken}
  {views more : List View} {shape : Shape} {s : Symbol}

namespace Fits

theorem one (shows : Shows s tokens views) : Fits [.kept s] tokens views := by
  simpa using kept shows nil

theorem legible (fits : Fits slots tokens views) :
    ∀ t ∈ tokens, t.Legible ∧ t = written t.kind t.text := by
  induction fits with
  | nil => exact List.forall_mem_nil _
  | kept shows _ ih => exact List.forall_mem_append.mpr ⟨shows.legible, ih⟩
  | dropped shows _ ih => exact List.forall_mem_append.mpr ⟨shows.legible, ih⟩

theorem append {others : List Slot} {last : List SourceToken} (fits : Fits slots tokens views)
    (rest : Fits others last more) : Fits (slots ++ others) (tokens ++ last) (views ++ more) := by
  induction fits with
  | nil => exact rest
  | kept shows _ ih => simpa using kept shows ih
  | dropped shows _ ih => simpa using dropped shows ih

open VyperFront.Derivation in
private theorem exists_parts (fits : Fits slots tokens views) :
    ∃ parts : List Derivation, (∀ d ∈ parts, d.Valid) ∧
      parts.map symbol = slots.filterMap Slot.symbol? ∧ yields parts = tokens ∧
      (∀ t ∈ keep slots (treesOf parts), t.isGap = false) ∧
      (keep slots (treesOf parts)).map Tree.view = views := by
  induction fits with
  | nil => exact ⟨[], List.forall_mem_nil _, rfl, rfl, List.forall_mem_nil _, rfl⟩
  | kept shows _ ih =>
    obtain ⟨d, valid, rfl, rfl, solid, rfl⟩ := shows.derived
    obtain ⟨parts, valids, symbols, rfl, solids, rfl⟩ := ih
    exact ⟨d :: parts, List.forall_mem_cons.mpr ⟨valid, valids⟩,
      by simp [Slot.symbol?, symbols], rfl, List.forall_mem_append.mpr ⟨solid, solids⟩,
      List.map_append⟩
  | dropped shows _ ih =>
    obtain ⟨d, valid, rfl, rfl, _, _⟩ := shows.derived
    obtain ⟨parts, valids, symbols, rfl, solids, rfl⟩ := ih
    exact ⟨d :: parts, List.forall_mem_cons.mpr ⟨valid, valids⟩,
      by simp [Slot.symbol?, symbols], rfl, solids, rfl⟩

end Fits

theorem labelled_eq_unlabelled {kind : NodeKind} (none : kind.fields = []) (views : List View) :
    View.labelled kind 0 views = Expression.unlabelled views :=
  View.labelled_eq_map (fun i _ => by rw [NodeKind.field?, none]; simp) views

namespace Shows

/-- A phrase shows what one of its productions does. -/
theorem phrase (fits : Fits slots tokens views) (member : ⟨n, shape, slots⟩ ∈ n.productions) :
    Shows (.nonterminal n) tokens (shape.views views) := by
  refine ⟨fits.legible, ?_⟩
  obtain ⟨parts, valid, body, yields, solid, rfl⟩ := fits.exists_parts
  have member := (Grammar.mem_productions (p := ⟨n, shape, slots⟩)).mpr member
  refine ⟨.phrase ⟨n, shape, slots⟩ parts, .phrase member body valid, rfl, yields, ?_⟩
  rw [Derivation.trees]
  cases shape with
  | node kind =>
    refine ⟨List.forall_mem_singleton.mpr rfl, ?_⟩
    rw [List.map_singleton, Tree.view, Tree.views_eq_labelled solid]
    rfl
  | splice => exact ⟨solid, rfl⟩
  | pass => exact ⟨solid, rfl⟩

theorem node {kind : NodeKind} (fits : Fits slots tokens views)
    (member : ⟨n, .node kind, slots⟩ ∈ n.productions) :
    n.Shows tokens (.node kind (View.labelled kind 0 views)) :=
  phrase fits member

theorem plain {kind : NodeKind} (none : kind.fields = []) (fits : Fits slots tokens views)
    (member : ⟨n, .node kind, slots⟩ ∈ n.productions) :
    n.Shows tokens (.node kind (Expression.unlabelled views)) := by
  rw [← labelled_eq_unlabelled none]
  exact node fits member

/-- A phrase shows what another one does that it gives way to. -/
theorem pass (fits : Fits slots tokens views) (member : ⟨n, .pass, slots⟩ ∈ n.productions) :
    Shows (.nonterminal n) tokens views :=
  phrase fits member

theorem token {text : Text} (legible : Token.Legible (written k text)) :
    Shows (.terminal k) [written k text] [.leaf k text] :=
  ⟨List.forall_mem_singleton.mpr ⟨legible, rfl⟩, .token (written k text), .token _, rfl, rfl,
    List.forall_mem_singleton.mpr rfl, rfl⟩

theorem spelled (spelled : k.spelling?.isSome = true) :
    Shows (.terminal k) [k.token] [Expression.leafOf k] := by
  obtain ⟨spelling, same⟩ := Option.isSome_iff_exists.mp spelled
  have legible : Token.Legible (written k spelling.toList) := Lexer.legible_of_spelling same
  rw [Terminal.token, Expression.leafOf, same]
  exact token legible

end Shows

namespace Fits

theorem literals {kinds : List Terminal} (spelled : ∀ k ∈ kinds, k.spelling?.isSome = true) :
    Fits (kinds.map fun k => .kept (.terminal k)) (kinds.map Terminal.token)
      (kinds.map Expression.leafOf) := by
  induction kinds with
  | nil => exact .nil
  | cons k rest ih =>
    obtain ⟨here, later⟩ := List.forall_mem_cons.mp spelled
    exact .kept (.spelled here) (ih later)

/-- What stands between brackets, if the brackets are dropped. -/
theorem between (opener closer : Terminal) (opens : opener.spelling?.isSome = true)
    (closes : closer.spelling?.isSome = true) (fits : Fits slots tokens views) :
    Fits (.dropped (.terminal opener) :: (slots ++ [.dropped (.terminal closer)]))
      (Expression.between opener closer tokens) views := by
  have closed := fits.append (.dropped (.spelled closes) .nil)
  rw [List.append_nil, List.append_nil] at closed
  have opened := Fits.dropped (.spelled opens) closed
  exact opened

end Fits

namespace Shows

theorem literals (kinds : List Terminal) (spelled : ∀ k ∈ kinds, k.spelling?.isSome = true)
    (member : ⟨n, .splice, kinds.map fun k => .kept (.terminal k)⟩ ∈ n.productions) :
    Shows (.nonterminal n) (kinds.map Terminal.token) (kinds.map Expression.leafOf) :=
  phrase (.literals spelled) member

theorem series (next : ⟨n, .splice, .kept (.nonterminal n) :: slots⟩ ∈ n.productions)
    (first : Shows (.nonterminal n) tokens views) {parts : List (List SourceToken)}
    {others : List (List View)} (each : List.Forall₂ (Fits slots) parts others) :
    Shows (.nonterminal n) (tokens ++ parts.flatten) (views ++ others.flatten) := by
  induction each generalizing tokens views with
  | nil => simpa using first
  | cons fits _ ih => simpa using ih (phrase (.kept first fits) next)

end Shows

/-- The rules of a phrase that repeats an item, each time after a comma. -/
structure Repeats (more item : Nonterminal) : Prop where
  one : ⟨more, .splice, [.dropped (.terminal .comma), .kept (.nonterminal item)]⟩ ∈
    more.productions
  next : ⟨more, .splice, [.kept (.nonterminal more), .dropped (.terminal .comma),
    .kept (.nonterminal item)]⟩ ∈ more.productions

/-- The rules of a phrase that lists items with commas between them. -/
structure Lists (list more item : Nonterminal) : Prop extends Repeats more item where
  single : ⟨list, .splice, [.kept (.nonterminal item)]⟩ ∈ list.productions
  several : ⟨list, .splice, [.kept (.nonterminal item), .kept (.nonterminal more)]⟩ ∈
    list.productions

namespace Shows

open Expression (separated separated_cons tupled between unlabelled)

variable {list item : Nonterminal} {view next : View} {parts : List (List SourceToken)}
  {more : List SourceToken}

private theorem commas (repeats : Repeats m item) (first : item.Shows tokens view)
    (each : List.Forall₂ item.Shows parts views) :
    Shows (.nonterminal m) ((tokens :: parts).flatMap (Terminal.comma.token :: ·))
      (view :: views) := by
  have fits {t : List SourceToken} {v : View} (shows : item.Shows t v) :
      Fits [.dropped (.terminal .comma), .kept (.nonterminal item)] (Terminal.comma.token :: t)
        [v] :=
    .dropped (.spelled rfl) (.one shows)
  have others : List.Forall₂ (Fits [.dropped (.terminal .comma), .kept (.nonterminal item)])
      (parts.map (Terminal.comma.token :: ·)) (views.map ([·])) :=
    List.forall₂_map_left_iff.mpr (List.forall₂_map_right_iff.mpr (each.imp fun _ _ => fits))
  have shows := series repeats.next (phrase (fits first) repeats.one) others
  rwa [← List.flatMap_def, ← List.flatMap_def, List.flatMap_singleton'] at shows

/-- Two items or more with commas between them. -/
theorem several (repeats : Repeats m item)
    (member : ⟨n, shape, [.kept (.nonterminal item), .kept (.nonterminal m)]⟩ ∈ n.productions)
    (first : item.Shows tokens view) (second : item.Shows more next)
    (each : List.Forall₂ item.Shows parts views) :
    Shows (.nonterminal n) (separated (tokens :: more :: parts))
      (shape.views (view :: next :: views)) := by
  have shows := phrase (.kept first (.one (commas repeats second each))) member
  rwa [separated_cons]

/-- One item or more with commas between them. -/
theorem listed (lists : Lists list m item) (first : item.Shows tokens view)
    (each : List.Forall₂ item.Shows parts views) :
    Shows (.nonterminal list) (separated (tokens :: parts)) (view :: views) := by
  cases each with
  | nil => simpa [separated_cons] using phrase (.one first) lists.single
  | cons second each => exact several lists.toRepeats lists.several first second each

/-- Items of a tuple: one with a comma after it, or more with commas between them. -/
theorem tupled (repeats : Repeats m item)
    (one : ⟨n, shape, [.kept (.nonterminal item), .dropped (.terminal .comma)]⟩ ∈ n.productions)
    (more : ⟨n, shape, [.kept (.nonterminal item), .kept (.nonterminal m)]⟩ ∈ n.productions)
    (first : item.Shows tokens view) (each : List.Forall₂ item.Shows parts views) :
    Shows (.nonterminal n) (tupled (tokens :: parts)) (shape.views (view :: views)) := by
  cases each with
  | nil =>
    have shows := phrase (.kept first (.dropped (.spelled rfl) .nil)) one
    simpa [Expression.tupled, separated_cons] using shows
  | cons second each => simpa [Expression.tupled] using several repeats more first second each

/-- A node of items between brackets with commas between them, if there are any. -/
theorem enclosed {kind : NodeKind} (opener closer : Terminal) (lists : Lists list m item)
    (opens : opener.spelling?.isSome = true) (closes : closer.spelling?.isSome = true)
    (plain : kind.fields = [])
    (none : ⟨n, .node kind, [.dropped (.terminal opener), .dropped (.terminal closer)]⟩ ∈
      n.productions)
    (some : ⟨n, .node kind, [.dropped (.terminal opener), .kept (.nonterminal list),
      .dropped (.terminal closer)]⟩ ∈ n.productions)
    (each : List.Forall₂ item.Shows parts views) :
    n.Shows (between opener closer (separated parts)) (.node kind (unlabelled views)) := by
  cases each with
  | nil => exact Shows.plain plain (.between opener closer opens closes .nil) none
  | cons first each =>
    have one := Fits.one (listed lists first each)
    exact Shows.plain plain (.between opener closer opens closes one) some

end Shows

end VyperFront
