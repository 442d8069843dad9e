import VyperFront.Automaton.Item

/-! The graph of item sets: a vertex for each set of items that can be in
progress at once, and an edge for each symbol that can be matched there. -/

namespace VyperFront

/-- A vertex: the items in progress and where each symbol leads. -/
structure Vertex where
  items : ItemSet
  edges : List (Symbol × Nat)

namespace Graph

/-- The item sets found so far with their numbers, and those still to be expanded. -/
structure Search where
  known : Table Nat
  count : Nat
  pending : List ItemSet

namespace Search

def start (core : ItemSet) : Search := ⟨Table.leaf.insert core 0, 1, []⟩

/-- The number of an item set; a set that was not known gets the next one. -/
def visit (search : Search) (core : ItemSet) : Nat × Search :=
  match search.known.get? core with
  | some number => (number, search)
  | none =>
    (search.count,
      ⟨search.known.insert core search.count, search.count + 1, core :: search.pending⟩)

/-- The edges along symbols that are each waited for by some items. -/
def connect : List (ItemSet × Symbol) → Search → List (Symbol × Nat) × Search
  | [], search => ([], search)
  | (items, s) :: rest, search =>
    let (number, search) := search.visit (ItemSet.advance items)
    let (edges, search) := connect rest search
    ((s, number) :: edges, search)

end Search

/-- Expands the item sets in the order of their numbers. -/
def explore (symbols : ItemIndex Symbol) (phrases : ItemIndex ItemSet) :
    (steps : Nat) → (current : List ItemSet) → Search → List Vertex
  | 0, _, _ => []
  | steps + 1, [], search =>
    match search.pending with
    | [] => []
    | _ :: _ =>
      explore symbols phrases steps search.pending.reverse { search with pending := [] }
  | steps + 1, core :: current, search =>
    let items := ItemSet.predict phrases core
    let (edges, search) := Search.connect (symbols.meeting items) search
    ⟨items, edges⟩ :: explore symbols phrases steps current search

/-- The symbols by the items that wait for them. -/
@[irreducible] def symbols : ItemIndex Symbol :=
  .ofList (Symbol.all.map fun s => (ItemSet.waitingFor s, s))

/-- The phrases with what they bring, by the items that wait for them. -/
@[irreducible] def phrases : ItemIndex ItemSet := ItemSet.byWaiting ItemSet.brought

/-- The items that begin a program. -/
@[irreducible] def beginning : ItemSet := ItemSet.startingWith .program

/-- The graph of the whole grammar, from the items that begin a program. -/
@[irreducible] def vertices : List Vertex :=
  explore symbols phrases 1000 [beginning] (.start beginning)

end Graph

end VyperFront
