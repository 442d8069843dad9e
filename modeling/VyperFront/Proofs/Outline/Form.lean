import VyperFront.Outline.Extraction
import VyperFront.Proofs.Outline.Frame

namespace VyperFront

namespace Tree

variable {t : Tree}

theorem Counts.exists_leaf (counts : t.Counts .leaf) : ∃ token, t = .leaf token := by
  obtain ⟨a, found, within⟩ := counts
  cases t with
  | gap => cases found
  | leaf token => exact ⟨token, rfl⟩
  | node kind extent trees =>
    cases found
    have checked : ∀ kind ∈ NodeKind.all, kind.category.within .leaf = false := by decide
    rw [checked kind kind.mem_all] at within
    cases within

theorem Counts.exists_node {c : Category} (counts : t.Counts c) (kind : NodeKind)
    (solid : Category.leaf.within c = false)
    (only : ∀ other ∈ NodeKind.all, other.category.within c = true → other = kind) :
    ∃ extent trees, t = .node kind extent trees := by
  obtain ⟨a, found, within⟩ := counts
  cases t with
  | gap => cases found
  | leaf token =>
    cases found
    rw [solid] at within
    cases within
  | node other extent trees =>
    cases found
    exact ⟨extent, trees, by rw [only other other.mem_all within]⟩

theorem Counts.within {c : Category} {kind : NodeKind} {extent : Option Extent}
    {trees : List Tree} (counts : (node kind extent trees).Counts c) :
    kind.category.within c = true := by
  obtain ⟨a, found, within⟩ := counts
  cases found
  exact within

/-- The tree counts for what is written, or stands for a part that was left out. -/
def CountsOrGap (t : Tree) : Prop := t.Counts .text ∨ t = .gap

end Tree

/-- The forms of a tree. What has no handler may be over any trees. -/
inductive Tree.Form : Tree → Prop where
  | gap : Form .gap
  | leaf (token : SourceToken) : Form (.leaf token)
  | written (plain : Outline.handler? kind = none) : Form (.node kind extent trees)
  | file (all : ∀ t ∈ trees, t.Counts .statement) : Form (.node .sourceFile extent trees)
  | block (all : ∀ t ∈ trees, t.Counts .statement) : Form (.node .block extent trees)
  | expression (text : t.Counts .text) : Form (.node .expressionStatement extent [t])
  | decorator (text : t.Counts .text) : Form (.node .decorator extent [t])
  | implements (text : t.Counts .text) : Form (.node .implementsStatement extent [t])
  | storage (target : t.Counts .text) (declared : u.Counts .text) (value : v.CountsOrGap) :
    Form (.node .annotatedAssignment extent [t, u, v])
  | function (name : SourceToken) (parameters : t.Counts .parameters) (returns : u.CountsOrGap)
    (body : v.Counts .block) : Form (.node .functionDefinition extent [.leaf name, t, u, v])
  | decorated (decorators : ∀ t ∈ trees, t.Counts .decorator) (function : u.Counts .function) :
    Form (.node .decoratedDefinition extent (trees ++ [u]))
  | parameters (all : ∀ t ∈ trees, t.Counts .parameter) : Form (.node .parameters extent trees)
  | typed (name : SourceToken) (type : t.Counts .text) :
    Form (.node .typedParameter extent [.leaf name, t])
  | default (name : SourceToken) (value : t.Counts .text) :
    Form (.node .defaultParameter extent [.leaf name, t])
  | typedDefault (name : SourceToken) (type : t.Counts .text) (value : u.Counts .text) :
    Form (.node .typedDefaultParameter extent [.leaf name, t, u])
  | event (name : SourceToken) (body : t.Counts .block) :
    Form (.node .eventDefinition extent [.leaf name, t])
  | struct (name : SourceToken) (body : t.Counts .block) :
    Form (.node .structDefinition extent [.leaf name, t])
  | flag (name : SourceToken) (body : t.Counts .block) :
    Form (.node .flagDefinition extent [.leaf name, t])
  | interface (name : SourceToken) (body : t.Counts .block) :
    Form (.node .interfaceDefinition extent [.leaf name, t])

namespace Seat.Row

variable {seats others : List Seat} {trees : List Tree} {c : Category}

theorem eq_nil (row : Row [] trees) : trees = [] := by
  cases row
  rfl

theorem of_many (row : Row [.many c] trees) : ∀ t ∈ trees, t.Counts c := by
  cases row with
  | cons here rest =>
    cases rest
    rw [List.append_nil]
    exact here

theorem of_one (row : Row (.one c :: seats) trees) :
    ∃ t rest, trees = t :: rest ∧ t.Counts c ∧ Row seats rest := by
  cases row with
  | cons here rest =>
    obtain ⟨t, rfl, counts⟩ := here
    exact ⟨t, _, rfl, counts, rest⟩

theorem of_gap (row : Row (.gap :: seats) trees) :
    ∃ rest, trees = .gap :: rest ∧ Row seats rest := by
  cases row with
  | cons here rest =>
    obtain rfl : _ = [Tree.gap] := here
    exact ⟨_, rfl, rest⟩

theorem of_either (rows : Row (.one c :: seats) trees ∨ Row (.one c :: others) trees) :
    ∃ t rest, trees = t :: rest ∧ t.Counts c ∧ (Row seats rest ∨ Row others rest) := by
  rcases rows with row | row
  · obtain ⟨t, rest, rfl, counts, later⟩ := row.of_one
    exact ⟨t, rest, rfl, counts, .inl later⟩
  · obtain ⟨t, rest, rfl, counts, later⟩ := row.of_one
    exact ⟨t, rest, rfl, counts, .inr later⟩

/-- Two rows of which one leaves out what the other begins with. -/
theorem of_optional (rows : Row (.one .text :: seats) trees ∨ Row (.gap :: seats) trees) :
    ∃ t rest, trees = t :: rest ∧ t.CountsOrGap ∧ Row seats rest := by
  rcases rows with row | row
  · obtain ⟨t, rest, rfl, counts, later⟩ := row.of_one
    exact ⟨t, rest, rfl, .inl counts, later⟩
  · obtain ⟨rest, rfl, later⟩ := row.of_gap
    exact ⟨.gap, rest, rfl, .inr rfl, later⟩

theorem of_last (row : Row [.one c] trees) : ∃ t, trees = [t] ∧ t.Counts c := by
  obtain ⟨t, rest, rfl, counts, later⟩ := row.of_one
  exact ⟨t, by rw [later.eq_nil], counts⟩

theorem of_named (row : Row [.one .leaf, .one c] trees) :
    ∃ name t, trees = [.leaf name, t] ∧ t.Counts c := by
  obtain ⟨first, rest, rfl, leaf, later⟩ := row.of_one
  obtain ⟨name, rfl⟩ := leaf.exists_leaf
  obtain ⟨t, rfl, counts⟩ := later.of_last
  exact ⟨name, t, rfl, counts⟩

end Seat.Row

namespace Tree

variable {kind : NodeKind} {extent : Option Extent} {trees : List Tree} {first second : List Seat}

theorem Framed.only (framed : (node kind extent trees).Framed) (rows : kind.rows = [first]) :
    Seat.Row first trees := by
  rcases framed with none | ⟨row, member, standing⟩
  · rw [rows] at none
    cases none
  · rw [rows] at member
    exact List.mem_singleton.mp member ▸ standing

theorem Framed.either (framed : (node kind extent trees).Framed)
    (rows : kind.rows = [first, second]) : Seat.Row first trees ∨ Seat.Row second trees := by
  rcases framed with none | ⟨row, member, standing⟩
  · rw [rows] at none
    cases none
  · rw [rows, List.mem_cons, List.mem_singleton] at member
    rcases member with rfl | rfl
    · exact .inl standing
    · exact .inr standing

theorem Framed.all {c : Category} (framed : (node kind extent trees).Framed)
    (rows : kind.rows = [[], [.many c]]) : ∀ t ∈ trees, t.Counts c := by
  rcases framed.either rows with none | several
  · rw [none.eq_nil]
    exact nofun
  · exact several.of_many

/-- Each tree has a form as soon as the trees below it are a row for its kind. -/
theorem Framed.form {t : Tree} (framed : t.Framed) : t.Form := by
  cases t with
  | gap => exact .gap
  | leaf token => exact .leaf token
  | node kind extent trees =>
    by_cases plain : Outline.handler? kind = none
    · exact .written plain
    · cases kind
      case sourceFile => exact .file (framed.all rfl)
      case block => exact .block (framed.only rfl).of_many
      case parameters => exact .parameters (framed.all rfl)
      case expressionStatement =>
        obtain ⟨t, rfl, text⟩ := (framed.only rfl).of_last
        exact .expression text
      case decorator =>
        obtain ⟨t, rfl, text⟩ := (framed.only rfl).of_last
        exact .decorator text
      case implementsStatement =>
        obtain ⟨t, rfl, text⟩ := (framed.only rfl).of_last
        exact .implements text
      case annotatedAssignment =>
        obtain ⟨target, _, rfl, first, others⟩ := Seat.Row.of_either (framed.either rfl)
        obtain ⟨declared, _, rfl, second, others⟩ := Seat.Row.of_either others
        obtain ⟨value, _, rfl, third, last⟩ := Seat.Row.of_optional others
        rw [last.eq_nil]
        exact .storage first second third
      case functionDefinition =>
        obtain ⟨_, _, rfl, leaf, others⟩ := Seat.Row.of_either (framed.either rfl)
        obtain ⟨name, rfl⟩ := leaf.exists_leaf
        obtain ⟨parameters, _, rfl, first, others⟩ := Seat.Row.of_either others
        obtain ⟨returns, _, rfl, second, last⟩ := Seat.Row.of_optional others
        obtain ⟨body, rfl, third⟩ := last.of_last
        exact .function name first second third
      case decoratedDefinition =>
        have row : Seat.Row [.many .decorator, .one .function] trees := framed.only rfl
        cases row with
        | cons decorators rest =>
          obtain ⟨f, rfl, function⟩ := rest.of_last
          exact .decorated decorators function
      case typedParameter =>
        obtain ⟨name, t, rfl, type⟩ := (framed.only rfl).of_named
        exact .typed name type
      case defaultParameter =>
        obtain ⟨name, t, rfl, value⟩ := (framed.only rfl).of_named
        exact .default name value
      case typedDefaultParameter =>
        obtain ⟨name, _, rfl, leaf, row⟩ := (framed.only rfl).of_one
        obtain ⟨name, rfl⟩ := leaf.exists_leaf
        obtain ⟨type, _, rfl, first, row⟩ := row.of_one
        obtain ⟨value, rfl, second⟩ := row.of_last
        exact .typedDefault name first second
      case eventDefinition =>
        obtain ⟨name, t, rfl, body⟩ := (framed.only rfl).of_named
        exact .event name body
      case structDefinition =>
        obtain ⟨name, t, rfl, body⟩ := (framed.only rfl).of_named
        exact .struct name body
      case flagDefinition =>
        obtain ⟨name, t, rfl, body⟩ := (framed.only rfl).of_named
        exact .flag name body
      case interfaceDefinition =>
        obtain ⟨name, t, rfl, body⟩ := (framed.only rfl).of_named
        exact .interface name body
      all_goals exact absurd rfl plain

end Tree

end VyperFront
