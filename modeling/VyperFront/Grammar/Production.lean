import VyperFront.Grammar.Rules

/-! Productions: the rules with every optional part decided. An optional
part that is left out leaves one gap for each child it would have added, so that
the children of a node keep their positions. -/

namespace VyperFront

/-- What stands at one place of a production. -/
inductive Slot where
  /-- A symbol whose subtrees stay in the tree. -/
  | kept (symbol : Symbol)
  /-- A symbol that is matched and leaves nothing in the tree. -/
  | dropped (symbol : Symbol)
  /-- Nothing is matched, and a gap is left in the tree. -/
  | gap
  deriving DecidableEq, Repr

namespace Slot

def symbol? : Slot → Option Symbol
  | kept s | dropped s => some s
  | gap => none

end Slot

structure Production where
  head : Nonterminal
  shape : Shape
  slots : List Slot
  deriving DecidableEq, Repr

namespace Production

/-- The symbols that the production derives its head to. -/
def body (p : Production) : List Symbol :=
  p.slots.filterMap Slot.symbol?

end Production

namespace Terminal

/-- Whether a lexeme of the terminal is a child of its node: always for names,
numbers and strings, only where literals are kept for the fixed texts. -/
def isKept (keepsLiterals : Bool) (t : Terminal) : Bool :=
  (NodeKind.ofTerminal? t).isSome || (keepsLiterals && t.spelling?.isSome)

end Terminal

namespace Symbol

def slot (keepsLiterals : Bool) : Symbol → Slot
  | .terminal t => if t.isKept keepsLiterals then .kept (.terminal t) else .dropped (.terminal t)
  | .nonterminal n => .kept (.nonterminal n)

/-- Whether an omitted symbol leaves a gap: when it would have added exactly one
child. Spliced nonterminals add any number, so they leave none. -/
def leavesGap (keepsLiterals : Bool) : Symbol → Bool
  | .terminal t => t.isKept keepsLiterals
  | .nonterminal n => !n.isSpliced

end Symbol

namespace Rule.Part

/-- The ways to fill the part: as written, or with gaps. -/
def choices (keepsLiterals : Bool) : Rule.Part → List (List Slot)
  | one s => [[s.slot keepsLiterals]]
  | maybe symbols =>
    [symbols.map (Symbol.slot keepsLiterals),
     (symbols.filter (Symbol.leavesGap keepsLiterals)).map fun _ => .gap]

end Rule.Part

namespace Rule

def slotLists (keepsLiterals : Bool) : List Rule.Part → List (List Slot)
  | [] => [[]]
  | part :: rest =>
    (part.choices keepsLiterals).flatMap fun first =>
      (slotLists keepsLiterals rest).map (first ++ ·)

def productions (head : Nonterminal) (r : Rule) : List Production :=
  (slotLists r.keepsLiterals r.parts).map fun slots => ⟨head, r.shape, slots⟩

end Rule

namespace Nonterminal

def productions (n : Nonterminal) : List Production :=
  n.rules.flatMap (Rule.productions n)

end Nonterminal

namespace Grammar

def productions : List Production :=
  Nonterminal.all.flatMap Nonterminal.productions

theorem mem_productions {p : Production} :
    p ∈ productions ↔ p ∈ p.head.productions := by
  constructor
  · intro h
    obtain ⟨n, _, hp⟩ := List.mem_flatMap.mp h
    obtain ⟨a, _, ha⟩ := List.mem_flatMap.mp hp
    obtain ⟨slots, _, rfl⟩ := List.mem_map.mp ha
    exact hp
  · intro h
    exact List.mem_flatMap.mpr ⟨p.head, p.head.mem_all, h⟩

end Grammar

end VyperFront
