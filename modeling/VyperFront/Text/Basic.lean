namespace VyperFront

/-- A text. Its characters are Unicode scalar values, so that lone surrogates are left out. -/
abbrev Text := List Char

namespace Text

/-- The pieces between line feeds. There is one more of them than line feeds. -/
def lines : Text → List Text
  | [] => [[]]
  | c :: rest =>
    if c = '\n' then [] :: lines rest
    else
      match lines rest with
      | first :: others => (c :: first) :: others
      | [] => [[c]]

/-- What follows the last line feed, or the whole text if there is none. -/
def lastLine (t : Text) : Text := (t.reverse.takeWhile (· ≠ '\n')).reverse

/-- Whether the part occurs somewhere in the text. -/
def holds (part : Text) : Text → Bool
  | [] => part.isEmpty
  | c :: rest => part.isPrefixOf (c :: rest) || holds part rest

/-- The characters from one offset up to another. -/
def slice (t : Text) (start stop : Nat) : Text := (t.drop start).take (stop - start)

/-- Whether the last character is a line feed. -/
def endsLine (t : Text) : Bool := t.getLast? == some '\n'

theorem lines_ne_nil (t : Text) : t.lines ≠ [] := by
  cases t with
  | nil => simp [lines]
  | cons c rest =>
    simp only [lines]
    split
    · simp
    · split <;> simp

/-! A text file may end its lines in three ways; a program sees one. -/

/-- The text with a line feed for each carriage return, alone or before a line
feed. -/
def unifyBreaks : Text → Text
  | [] => []
  | '\r' :: '\n' :: rest => '\n' :: unifyBreaks rest
  | c :: rest => (if c = '\r' then '\n' else c) :: unifyBreaks rest

theorem unifyBreaks_of_not_mem {t : Text} (plain : '\r' ∉ t) : t.unifyBreaks = t := by
  fun_induction unifyBreaks t with
  | case1 => rfl
  | case2 rest ih => simp at plain
  | case3 c rest _ ih =>
    have here : c ≠ '\r' := fun h => plain (by simp [h])
    have there : '\r' ∉ rest := fun h => plain (by simp [h])
    simp [here, ih there]

end Text

end VyperFront
