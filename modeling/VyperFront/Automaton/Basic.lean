import VyperFront.Automaton.Lookahead

/-! The LALR(1) automaton of the grammar: where symbols lead from each state, and
which productions are reduced before which terminals. -/

namespace VyperFront

structure State where
  /-- Where each symbol leads, by its code. -/
  edges : Table Nat
  /-- The productions that can end here, with the terminals that can follow. -/
  reductions : List (Production × TerminalSet)
  /-- The terminals that the state can act on. -/
  expected : TerminalSet
  deriving Inhabited

/-- What a state does with a terminal. -/
inductive Action where
  | shift (target : Nat)
  | reduce (production : Production)
  | reject
  deriving DecidableEq, Repr

namespace State

def action (s : State) (t : Terminal) : Action :=
  match s.edges.get? (Symbol.terminal t).code with
  | some target => .shift target
  | none =>
    match s.reductions.find? (·.2.contains t) with
    | some (p, _) => .reduce p
    | none => .reject

/-- Where a phrase leads that has just been completed on top of the state. -/
def goto? (s : State) (n : Nonterminal) : Option Nat :=
  s.edges.get? (Symbol.nonterminal n).code

/-- Adds a production with one more set of terminals that can follow it. -/
def addReduction (p : Production) (follow : TerminalSet) :
    List (Production × TerminalSet) → List (Production × TerminalSet)
  | [] => [(p, follow)]
  | (q, others) :: rest =>
    if q = p then (q, others ∪ follow) :: rest else (q, others) :: addReduction p follow rest

end State

/-- The states by their number. Reading starts in state 0. -/
structure Automaton where
  states : Table State

namespace Automaton

def state (a : Automaton) (number : Nat) : State :=
  (a.states.get? number).getD default

/-- The terminals among the symbols of edges. -/
def shifts (edges : List (Symbol × Nat)) : TerminalSet :=
  edges.foldr (fun (s, _) shifts =>
    match s with
    | .terminal t => .singleton t ∪ shifts
    | .nonterminal _ => shifts) ∅

/-- For each vertex the productions that can end there. -/
def reductions (follow : Table TerminalSet) (ends : List (Nat × Production × Nat)) :
    Table (List (Production × TerminalSet)) :=
  ends.foldl (fun reductions (vertex, p, origin) =>
    reductions.update [] (State.addReduction p (Lookahead.follow follow origin)) vertex) .leaf

/-- Where each symbol leads from a vertex, by its code. -/
def targets (edges : List (Symbol × Nat)) : Table Nat :=
  edges.foldl (fun targets (s, target) => targets.insert s.code target) .leaf

/-- Where each symbol leads from each vertex. -/
def edges (vertices : List Vertex) : Table (Table Nat) :=
  .ofList (vertices.map fun v => targets v.edges)

/-- What the graph says about lookaheads. -/
def equations (vertices : List Vertex) : Lookahead.Equations :=
  Lookahead.equations (Lookahead.plan Grammar.onsets) (edges vertices) vertices.length

/-- The state of a vertex with the productions that can end there. -/
def stateOf (v : Vertex) (reductions : List (Production × TerminalSet)) : State :=
  ⟨targets v.edges, reductions, reductions.foldl (· ∪ ·.2) (shifts v.edges)⟩

/-- The automaton of a graph. -/
def build (vertices : List Vertex) : Automaton :=
  let equations := equations vertices
  let reductions := reductions equations.solution equations.ends
  ⟨.ofList (vertices.zipIdx.map fun (v, vertex) =>
    stateOf v ((reductions.get? vertex).getD []))⟩

end Automaton

/-- The automaton that reads Vyper. -/
@[irreducible] def automaton : Automaton := .build Graph.vertices

end VyperFront
