import VyperFront.Automaton.Graph
import VyperFront.Grammar.Production
import VyperFront.Table

/-! Lookahead sets: which terminals can follow a phrase that is predicted at a
vertex of the graph. A production is followed by what follows its head; a phrase
within a production by what the rest of the production starts with and, if the
rest can be empty, by what follows the production. What phrases can start with, and the lookahead
sets, are the least solutions of these equations. -/

namespace VyperFront

/-- What a phrase can start with. -/
structure Onset where
  first : TerminalSet
  /-- Whether the phrase can be empty. -/
  empty : Bool
  deriving DecidableEq, Repr, Inhabited

namespace Onset

def none : Onset := ⟨∅, false⟩

def or (a b : Onset) : Onset := ⟨a.first ∪ b.first, a.empty || b.empty⟩

/-- The onset of one phrase followed by another. -/
def followedBy (a b : Onset) : Onset :=
  if a.empty then ⟨a.first ∪ b.first, b.empty⟩ else a

def ofSymbol (onsets : Table Onset) : Symbol → Onset
  | .terminal t => ⟨.singleton t, false⟩
  | .nonterminal n => (onsets.get? n.ctorIdx).getD none

def ofSymbols (onsets : Table Onset) : List Symbol → Onset
  | [] => ⟨∅, true⟩
  | s :: rest => (ofSymbol onsets s).followedBy (ofSymbols onsets rest)

end Onset

namespace Grammar

/-- One round of the equations: every phrase starts as one of its productions. -/
def refineOnsets (bodies : List (List (List Symbol))) (onsets : Table Onset) : Table Onset :=
  Table.ofList (bodies.map fun alternatives =>
    (alternatives.map (Onset.ofSymbols onsets)).foldl Onset.or .none)

def solveOnsets (bodies : List (List (List Symbol))) : Nat → Table Onset → Table Onset
  | 0, onsets => onsets
  | rounds + 1, onsets =>
    let next := refineOnsets bodies onsets
    if next.toList = onsets.toList then onsets else solveOnsets bodies rounds next

/-- The onset of every phrase, by the phrase's position. A round that changes
nothing ends the computation; each other round adds something to one phrase. -/
@[irreducible] def onsets : Table Onset :=
  let bodies := Nonterminal.all.map fun n => n.productions.map Production.body
  solveOnsets bodies (bodies.length * (Terminal.all.length + 1))
    (Table.ofList (bodies.map fun _ => .none))

end Grammar

/-- A symbol of a production with the onset of the symbols after it. -/
structure Step where
  symbol : Symbol
  after : Onset

namespace Lookahead

/-- The steps through the body of a production. -/
def steps (onsets : Table Onset) : List Symbol → List Step
  | [] => []
  | s :: rest => ⟨s, Onset.ofSymbols onsets rest⟩ :: steps onsets rest

/-- A phrase at a vertex, as one number. -/
def place (vertex : Nat) (n : Nonterminal) : Nat := vertex * 128 + n.ctorIdx

/-- What follows the source also follows the target. -/
structure Flow where
  source : Nat
  target : Nat

/-- What the productions of the predicted phrases say about lookaheads: sets that
a place has at least, flows between places, and where each production ends. -/
structure Equations where
  seeds : List (Nat × TerminalSet)
  flows : List Flow
  ends : List (Nat × Production × Nat)

/-- Where a symbol leads from a vertex. -/
def target? (edges : Table (Table Nat)) (vertex : Nat) (s : Symbol) : Option Nat :=
  (edges.get? vertex).bind (·.get? s.code)

/-- Follows a production through the graph from a place where it begins. -/
def trace (edges : Table (Table Nat)) (origin : Nat) (p : Production) :
    (vertex : Nat) → List Step → Equations → Equations
  | vertex, [], e => { e with ends := (vertex, p, origin) :: e.ends }
  | vertex, step :: rest, e =>
    match target? edges vertex step.symbol with
    | none => e
    | some next =>
      trace edges origin p next rest <|
        match step.symbol with
        | .terminal _ => e
        | .nonterminal n =>
          let target := place vertex n
          { e with
            seeds := (target, step.after.first) :: e.seeds
            flows := if step.after.empty then ⟨origin, target⟩ :: e.flows else e.flows }

/-- A phrase with its productions and the steps through them. -/
abbrev Plan := List (Nonterminal × List (Production × List Step))

def plan (onsets : Table Onset) : Plan :=
  Nonterminal.all.map fun n => (n, n.productions.map fun p => (p, steps onsets p.body))

/-- Whether the phrase can begin at the vertex: if it leads somewhere, or if it
is the program itself. -/
def begins (edges : Table (Table Nat)) (vertex : Nat) (n : Nonterminal) : Bool :=
  (target? edges vertex (.nonterminal n)).isSome || (vertex == 0 && n == .program)

def equationsAt (plan : Plan) (edges : Table (Table Nat)) (e : Equations) (vertex : Nat) :
    Equations :=
  plan.foldl (fun e (n, productions) =>
    if begins edges vertex n then
      productions.foldl (fun e (p, steps) => trace edges (place vertex n) p vertex steps e) e
    else e) e

/-- The equations of a graph with so many vertices. The end of the input follows
the program. -/
def equations (plan : Plan) (edges : Table (Table Nat)) (count : Nat) : Equations :=
  (List.range count).foldl (equationsAt plan edges)
    ⟨[(place 0 .program, .singleton .endOfInput)], [], []⟩

/-- Adds to a place. -/
def join (s : TerminalSet) (place : Nat) (sets : Table TerminalSet) : Table TerminalSet :=
  sets.update ∅ (· ∪ s) place

/-- What a place has. -/
def follow (sets : Table TerminalSet) (place : Nat) : TerminalSet := (sets.get? place).getD ∅

/-- Lets every flow carry its source's set to its target. -/
def carry (flows : List Flow) (sets : Table TerminalSet) : Table TerminalSet :=
  flows.foldl (fun sets flow => join (follow sets flow.source) flow.target sets) sets

/-- Whether the target of a flow has all that its source has. -/
def settled (sets : Table TerminalSet) (flow : Flow) : Bool :=
  (follow sets flow.source ∪ follow sets flow.target) == follow sets flow.target

def solve (flows : List Flow) : (rounds : Nat) → Table TerminalSet → Table TerminalSet
  | 0, sets => sets
  | rounds + 1, sets =>
    if flows.all (settled sets) then sets else solve flows rounds (carry flows sets)

/-- What follows each place. Each round adds something to the target of a flow. -/
def Equations.solution (e : Equations) : Table TerminalSet :=
  let seeded := e.seeds.foldl (fun sets (place, s) => join s place sets) .leaf
  solve e.flows.reverse (e.flows.length * Terminal.all.length) seeded

end Lookahead

end VyperFront
