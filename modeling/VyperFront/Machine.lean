import VyperFront.Automaton.Basic
import VyperFront.Tree.Fragment

/-! The machine that reads tokens: a stack of automaton states, each with the
fragment that led to it. -/

namespace VyperFront

structure Frame where
  state : Nat
  fragment : Fragment
  deriving Inhabited

/-- The frames of the machine, innermost first. Below them is state 0. -/
structure Machine where
  frames : List Frame
  deriving Inhabited

namespace Machine

def start : Machine := ⟨[]⟩

def state (m : Machine) : Nat :=
  match m.frames with
  | [] => 0
  | frame :: _ => frame.state

/-- What became of a terminal. -/
inductive Outcome where
  | shifted (machine : Machine)
  | accepted (fragment : Fragment)
  /-- The terminal cannot come next. Productions that end before it are reduced. -/
  | rejected (machine : Machine)

/-- Reads a terminal: reduces the productions that end before it, then shifts it.
Reducing the program accepts. -/
def feedFrom (a : Automaton) (t : Terminal) (fragment : Fragment) :
    (steps : Nat) → Machine → Outcome
  | 0, m => .rejected m
  | steps + 1, m =>
    match (a.state m.state).action t with
    | .shift target => .shifted ⟨⟨target, fragment⟩ :: m.frames⟩
    | .reject => .rejected m
    | .reduce p =>
      let count := p.body.length
      let reduced := Fragment.reduce p ((m.frames.take count).reverse.map (·.fragment))
      let below : Machine := ⟨m.frames.drop count⟩
      if p.head = .program then .accepted reduced
      else
        match (a.state below.state).goto? p.head with
        | some target => feedFrom a t fragment steps ⟨⟨target, reduced⟩ :: below.frames⟩
        | none => .rejected m

/-- Enough steps for any number of reductions: those of two symbols or more
shrink the stack, and between them a phrase is renamed at most once to each
other phrase. -/
def budget (m : Machine) : Nat := (m.frames.length + 2) * (Nonterminal.all.length + 1)

def feed (a : Automaton) (t : Terminal) (fragment : Fragment) (m : Machine) : Outcome :=
  feedFrom a t fragment m.budget m

/-- Whether the terminal can come next. -/
def accepts (a : Automaton) (m : Machine) (t : Terminal) : Bool :=
  match m.feed a t ⟨[], none⟩ with
  | .rejected _ => false
  | _ => true

/-- The terminals that can come next. -/
def expected (a : Automaton) (m : Machine) : List Terminal :=
  (a.state m.state).expected.toList.filter (m.accepts a)

end Machine

end VyperFront
