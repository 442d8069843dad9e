import Mathlib.Algebra.Group.Nat.Defs
import VyperFront.Automaton.Basic
import VyperFront.Automaton.Lookahead

/-! What can follow a phrase anywhere in a program. This is less exact than what
can follow it at a vertex of the graph, but it takes little to compute and tells
almost all vertices what to do. -/

namespace VyperFront

namespace TerminalSet

/-- Whether every terminal of the first set is in the second. -/
def within (a b : TerminalSet) : Bool := a ∪ b == b

/-- Whether no terminal is in both sets. -/
def apart (a b : TerminalSet) : Bool := (a.bits &&& b.bits).beq 0

theorem contains_of_within {a b : TerminalSet} {t : Terminal} (within : a.within b = true)
    (member : a.contains t = true) : b.contains t = true := by
  rw [← beq_iff_eq.mp within, contains_union, member, Bool.true_or]

theorem not_contains_of_apart {a b : TerminalSet} {t : Terminal} (apart : a.apart b = true)
    (member : a.contains t = true) : b.contains t = false := by
  have shared := congrArg (Nat.testBit · t.ctorIdx) (Nat.eq_of_beq_eq_true apart)
  simp only [Nat.testBit_and, Nat.zero_testBit, Bool.and_eq_false_iff] at shared
  rcases shared with absent | absent
  · exact absurd member (by rw [contains, absent]; decide)
  · exact absent

end TerminalSet

namespace Grammar

/-- Every place where a phrase stands in a production: the head of the production,
the phrase, and the onset of what comes after it. -/
def occurrences : List (Nonterminal × Nonterminal × Onset) :=
  productions.flatMap fun p =>
    (Lookahead.steps onsets p.body).filterMap fun step =>
      match step.symbol with
      | .terminal _ => none
      | .nonterminal n => some (p.head, n, step.after)

/-- Lets each occurrence add what comes after it to what follows the phrase. -/
def spread (sets : Table TerminalSet) : Table TerminalSet :=
  occurrences.foldl (fun sets (head, n, after) =>
    Lookahead.join
      (if after.empty then after.first ∪ Lookahead.follow sets head.ctorIdx else after.first)
      n.ctorIdx sets) sets

/-- What follows each phrase, by the phrase's position. A few rounds settle it. -/
def followSets : Table TerminalSet :=
  (List.range 4).foldl (fun sets _ => spread sets) <|
    Lookahead.join (.singleton .endOfInput) Nonterminal.program.ctorIdx <|
      .ofList (Nonterminal.all.map fun _ => ∅)

/-- What can follow the phrase. -/
def followers (n : Nonterminal) : TerminalSet := Lookahead.follow followSets n.ctorIdx

/-- Whether nothing more can be found to follow a phrase. -/
def followersSettled : Bool :=
  (followers .program).contains .endOfInput &&
    occurrences.all fun (head, n, after) =>
      after.first.within (followers n) &&
        (!after.empty || (followers head).within (followers n))

/-- Whether no phrase can start with more than its onset says. -/
def onsetsSettled : Bool :=
  productions.all fun p =>
    let onset := Onset.ofSymbol onsets (.nonterminal p.head)
    let body := Onset.ofSymbols onsets p.body
    body.first.within onset.first && (!body.empty || onset.empty)

end Grammar

/-! What has to be computed about the graph. Everything else about the automaton
follows from how it is built; that no vertex has a choice does not. Almost always
no terminal that leads on can follow the phrase that is complete. Where one can
follow it elsewhere, the vertices that the production began at tell them apart.
Besides, it is computed how the graph goes on after the items of a source file, and
that keywords are awaited where names are. -/

namespace ItemSet

/-- The productions in progress in a set, with their places. -/
def toItems (items : ItemSet) : List (Production × Nat) :=
  numbered.flatMap fun (number, p) =>
    (List.range (p.body.length + 1)).filterMap fun place =>
      if items.testBit (number + place) then some (p, place) else none

/-- The productions by their last items. -/
def complete : ItemIndex Production :=
  .ofList (numbered.map fun (number, p) => (1 <<< (number + p.body.length), p))

end ItemSet

namespace Graph

/-- Whether the terminal cannot follow the phrase at a vertex with these items:
they give no place for it after the phrase, neither do the phrases that end with
it, and it cannot follow what began elsewhere. -/
def precludes (items : List (Production × Nat)) (t : Terminal) :
    (depth : Nat) → Nonterminal → Bool
  | 0, _ => false
  | depth + 1, n =>
    n != .program && items.all fun (p, place) =>
      match p.body.drop place with
      | .nonterminal m :: rest =>
        let after := Onset.ofSymbols Grammar.onsets rest
        m != n || !after.first.contains t &&
          (!after.empty ||
            if place = 0 then precludes items t depth p.head
            else !(Grammar.followers p.head).contains t)
      | _ => true

/-- Where the symbols lead from a vertex, one after the other. -/
def walk (vertices : List Vertex) (number : Nat) : List Symbol → Option Nat
  | [] => some number
  | s :: rest =>
    match vertices[number]?.bind fun v => v.edges.find? (·.1 == s) with
    | some (_, target) => walk vertices target rest
    | none => none

/-- Whether a complete production and the terminals that lead on are never
confused, because of what can follow the production where it began. -/
def distinguished (number : Nat) (v : Vertex) (p : Production) : Bool :=
  vertices.zipIdx.all fun (origin, start) =>
    walk vertices start p.body != some number ||
      (Automaton.shifts v.edges).toList.all fun t =>
        !(Grammar.followers p.head).contains t ||
          precludes origin.items.toItems t Nonterminal.all.length p.head

/-- Whether the vertex knows what to do before each terminal. -/
def decided (number : Nat) (v : Vertex) : Bool :=
  match ItemSet.complete.meeting v.items with
  | [] => true
  | [(_, p)] =>
    (Automaton.shifts v.edges).apart (Grammar.followers p.head) || distinguished number v p
  | _ => false

/-- What is computed about choices. -/
def certificate : Bool :=
  vertices.length.blt 500 && ItemSet.brought.map (ItemSet.predict phrases) == ItemSet.brought &&
    Grammar.onsetsSettled && Grammar.followersSettled &&
    vertices.zipIdx.all fun (v, number) => decided number v

/-- Where the symbols lead from a vertex. -/
def edgesAt (vertices : List Vertex) (number : Nat) : List (Symbol × Nat) :=
  (vertices[number]?.map Vertex.edges).getD []

/-- The vertex after some items of a source file. -/
@[irreducible] def afterItems : Nat :=
  ((edgesAt vertices 0).lookup (.nonterminal .fileItems)).getD 0

/-- Whether the symbol is an item of a source file. -/
def isItem (s : Symbol) : Bool := s = .terminal .newline || s = .nonterminal .statement

/-- Whether the symbol is a part of a source file as such. -/
def isPart (s : Symbol) : Bool :=
  isItem s || s = .nonterminal .fileItems || s = .nonterminal .sourceFile

/-- What is computed about source files. -/
def sourceFilesChecked (vertices : List Vertex) (after : Nat) : Bool :=
  let begin := edgesAt vertices 0
  let goOn := edgesAt vertices after
  let first := (Onset.ofSymbol Grammar.onsets (.nonterminal .statement)).first
  begin.contains (.nonterminal .fileItems, after) &&
  (vertices.zipIdx.all fun (v, number) => number == 0 ||
    v.edges.all fun (s, _) => s != .nonterminal .fileItems && s != .nonterminal .sourceFile) &&
  begin.filter (!isPart ·.1) == goOn.filter (!isPart ·.1) &&
  ((begin ++ goOn).all fun (s, target) =>
    !(isItem s || s = .nonterminal .sourceFile) || (edgesAt vertices target).isEmpty) &&
  (goOn.all fun (s, _) =>
    match s with
    | .terminal t => t = .newline || first.contains t
    | _ => true) &&
  ((Grammar.followers .fileItems).toList.all fun t =>
    t = .endOfInput || goOn.any (·.1 == .terminal t)) &&
  ((Grammar.followers .sourceFile).toList.all fun t => t = .endOfInput) &&
  (vertices.all fun v => v.edges.all fun (s, target) =>
    !(s = .terminal .newline || s = .terminal .dedent) ||
      (edgesAt vertices target).all (·.1 == .terminal .indent))

end Graph

/-- Whether the keyword is awaited where no name is: it goes on with a phrase. -/
def Terminal.isConnective : Terminal → Bool
  | kwImport | kwAs | kwIf | kwElse | kwIn | kwDef | kwNot | kwAnd | kwOr => true
  | _ => false

/-- Whether the terminal is a keyword that is awaited only where names are. -/
def Terminal.isOpening (t : Terminal) : Bool := t.isKeyword && !t.isConnective

namespace Graph

/-- The vertices that some edge leads to, and the first, as bits. -/
def targets (vertices : List Vertex) : Nat :=
  (vertices.flatMap (·.edges.map (·.2))).foldr (fun target bits => 1 <<< target ||| bits) 1

/-- Whether a name is awaited at the vertex, going by one thing that leads on from it. A
further branch of a condition leads on where the condition can be complete, too. -/
def awaitsName (v : Vertex) : Symbol → Bool
  | .terminal .kwElif =>
    v.items.toItems.any fun (p, place) => p.head == .ifStatement && place == p.body.length
  | .nonterminal .elifClauses =>
    v.items.toItems.any fun (p, place) =>
      p.head == .ifStatement && p.body[place]? == some (.nonterminal .elifClauses)
  | .terminal t => !t.isOpening || v.edges.any (·.1 == .terminal .name)
  | .nonterminal _ => true

/-- Whether no name is awaited at the vertex. -/
def awaitsNoName (v : Vertex) : Bool :=
  (v.edges.all fun (s, _) => s != .terminal .name) &&
    v.items.toItems.all fun (p, place) =>
      place != p.body.length || !(Grammar.followers p.head).contains .name

/-- What is computed about keywords. After `from` and a name, where an `import` is to come, no
name is awaited. -/
def wordsChecked (vertices : List Vertex) : Bool :=
  targets vertices == 2 ^ vertices.length - 1 &&
    (vertices.all fun v => v.edges.all fun (s, _) => awaitsName v s) &&
    (walk vertices 0 [.terminal .kwFrom, .terminal .name]).any fun number =>
      vertices[number]?.any awaitsNoName

set_option maxRecDepth 100000 in
/-- Everything is computed at once, as the graph has to be for each part. -/
private theorem all_checked : certificate = true ∧
    sourceFilesChecked vertices afterItems = true ∧ wordsChecked vertices = true := by
  decide +kernel

theorem certified : certificate = true := all_checked.1

theorem sourceFiles_checked : sourceFilesChecked vertices afterItems = true := all_checked.2.1

theorem words_checked : wordsChecked vertices = true := all_checked.2.2

end Graph

end VyperFront
