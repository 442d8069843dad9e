import VyperFront.Artifact.Shipped
import VyperFront.Grammar.NodeKind
import VyperFront.Reader.Basic

/-! Parser generators. Which texts are grammars is for a generator to say. Of those that are it
makes tables. -/

namespace VyperFront.Artifact

/-- What follows the first line. -/
def belowHeader (t : Text) : Text := (t.dropWhile (· ≠ '\n')).drop 1

/-- What is made of a grammar: the automaton, and the kinds of the nodes that it can give. The
terminals are those of Vyper; grammars with others are left out. -/
structure Tables where
  automaton : Automaton
  nodeKinds : List String

/-- The tables of the grammar of Vyper. -/
def Tables.vyper : Tables := ⟨VyperFront.automaton, NodeKind.all.map NodeKind.text⟩

/-- What a generator says of a text. -/
inductive Verdict where
  | accepted (tables : Tables)
  /-- The text is no grammar, with the reason if one is given. -/
  | refused (reason : Option String)
  /-- The generator fails by an error of its own, with the name and the message of it. -/
  | raised (name message : String)

/-- A generator, by its verdicts on texts that are to be read in a mode. -/
structure Generator where
  verdict : Text → LexerMode → Verdict

namespace Generator

/-- The generator does not fail on the text: it accepts or refuses it. -/
def Settles (g : Generator) (t : Text) (mode : LexerMode) : Prop :=
  ∀ name message, g.verdict t mode ≠ .raised name message

/-- What the generator accepts is the shipped body, under any header. It refuses everything else. -/
structure TakesBody (g : Generator) : Prop where
  accepts {t : Text} (mode : LexerMode) (same : belowHeader t = body) :
    ∃ tables, g.verdict t mode = .accepted tables
  refuses {t : Text} (mode : LexerMode) (other : belowHeader t ≠ body) :
    ∃ reason, g.verdict t mode = .refused reason

/-- The generator that knows the shipped body and nothing else. -/
def known : Generator where
  verdict t _ := if belowHeader t = body then .accepted .vyper else .refused none

variable {t : Text} {mode : LexerMode}

theorem verdict_known_of_eq (same : belowHeader t = body) :
    known.verdict t mode = .accepted .vyper := if_pos same

theorem verdict_known_of_ne (other : belowHeader t ≠ body) :
    known.verdict t mode = .refused none := if_neg other

theorem settles_known : known.Settles t mode := by
  intro name message
  by_cases same : belowHeader t = body
  · rw [verdict_known_of_eq same]
    nofun
  · rw [verdict_known_of_ne same]
    nofun

theorem takesBody_known : known.TakesBody where
  accepts _ same := ⟨_, verdict_known_of_eq same⟩
  refuses _ other := ⟨_, verdict_known_of_ne other⟩

end Generator

end VyperFront.Artifact
