import VyperFront.Text.Basic
import VyperFront.Text.CharClass
import VyperFront.Text.Word

namespace VyperFront

/-- Reads a lexeme off the front of a text: the lexeme and what is left, or
nothing if the text does not begin with one. -/
abbrev Recognizer := Text → Option (Text × Text)

namespace Lexeme

/-- A reading with one more character in front. -/
def cons (c : Char) (reading : Text × Text) : Text × Text := (c :: reading.1, reading.2)

/-- A reading with more text in front. -/
def append (front : Text) (reading : Text × Text) : Text × Text :=
  (front ++ reading.1, reading.2)

/-- The longest front of a text whose characters all satisfy a test. -/
def run (p : Char → Bool) (t : Text) : Text × Text := (t.takeWhile p, t.dropWhile p)

/-- The fixed text itself. -/
def literal (expected : Text) : Recognizer := fun t =>
  if expected.isPrefixOf t then some (expected, t.drop expected.length) else none

theorem literal_eq_some {expected t lexeme rest : Text}
    (h : literal expected t = some (lexeme, rest)) : lexeme = expected ∧ t = expected ++ rest := by
  unfold literal at h
  split at h
  · next front =>
    obtain ⟨tail, rfl⟩ := List.isPrefixOf_iff_prefix.mp front
    simp at h
    exact ⟨h.1.symm, by rw [h.2]⟩
  · cases h

/-- A name: word characters, the first of which is no digit. -/
def name : Recognizer
  | [] => none
  | c :: rest =>
    if isWordChar c && !isDecimalDigit c then some (cons c (run isWordChar rest)) else none

end Lexeme

end VyperFront
