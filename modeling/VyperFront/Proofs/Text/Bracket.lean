import VyperFront.Text.Basic

namespace VyperFront

/-- The bracket that closes what the character opens. -/
def closing? : Char → Option Char
  | '(' => some ')'
  | '[' => some ']'
  | '\x7b' => some '\x7d'
  | _ => none

def isBracket (c : Char) : Bool := ['(', ')', '[', ']', '\x7b', '\x7d'].contains c

theorem isBracket_of_closing? {c close : Char} (found : closing? c = some close) :
    isBracket c = true := by
  unfold closing? at found
  split at found
  · rfl
  · rfl
  · rfl
  · cases found

/-- The brackets that are awaited after the character, the next one first, if some were before it.
There are none after a bracket that closes what is not open. -/
def awaitedAfter (before : List Char) (c : Char) : Option (List Char) :=
  match closing? c with
  | some close => some (close :: before)
  | none =>
    if isBracket c then
      match before with
      | close :: outer => if close = c then some outer else none
      | [] => none
    else some before

theorem awaitedAfter_of_other {c : Char} (other : isBracket c = false) (before : List Char) :
    awaitedAfter before c = some before := by
  have none : closing? c = none := by
    cases found : closing? c with
    | none => rfl
    | some close =>
      rw [isBracket_of_closing? found] at other
      cases other
  unfold awaitedAfter
  rw [none, other]
  rfl

/-- What is awaited further out is still awaited after the character. -/
theorem awaitedAfter_append {c : Char} {before after : List Char}
    (found : awaitedAfter before c = some after) (outer : List Char) :
    awaitedAfter (before ++ outer) c = some (after ++ outer) := by
  unfold awaitedAfter at found ⊢
  split at found
  · cases found
    rfl
  · split at found
    · next closes =>
      rw [if_pos closes]
      split at found
      · split at found
        · next same =>
          cases found
          exact if_pos same
        · cases found
      · cases found
    · next other =>
      cases found
      rw [if_neg other]

namespace Text

/-- The brackets of the text. -/
def brackets (t : Text) : Text := t.filter isBracket

/-- The brackets that are awaited after the text, if some were before it. -/
def awaited (before : List Char) (t : Text) : Option (List Char) := t.foldlM awaitedAfter before

/-- The text in round brackets, so many times. -/
def enclosed : Nat → Text → Text
  | 0, t => t
  | n + 1, t => ['('] ++ enclosed n t ++ [')']

/-- Each bracket that the text opens is closed in it. -/
def Balanced (t : Text) : Prop := awaited [] t = some []

instance (t : Text) : Decidable t.Balanced := inferInstanceAs (Decidable (_ = _))

variable {t u : Text} {before after : List Char} {c : Char}

@[simp] theorem brackets_append (t u : Text) : brackets (t ++ u) = t.brackets ++ u.brackets :=
  List.filter_append ..

theorem brackets_eq_nil_iff : t.brackets = [] ↔ ∀ c ∈ t, isBracket c = false := by
  simp [brackets]

theorem enclosed_add (m n : Nat) (t : Text) : (t.enclosed n).enclosed m = t.enclosed (m + n) := by
  induction m with
  | zero => rw [Nat.zero_add, enclosed]
  | succ m ih => rw [enclosed, ih, Nat.succ_add, enclosed]

theorem enclosed_inj {n : Nat} : t.enclosed n = u.enclosed n ↔ t = u := by
  induction n with
  | zero => exact Iff.rfl
  | succ n ih => rw [enclosed, enclosed, List.append_left_inj, List.append_right_inj, ih]

theorem awaited_append (before : List Char) (t u : Text) :
    awaited before (t ++ u) = (awaited before t).bind (awaited · u) :=
  List.foldlM_append

theorem awaited_brackets (before : List Char) (t : Text) :
    awaited before t.brackets = awaited before t := by
  induction t generalizing before with
  | nil => rfl
  | cons c rest ih =>
    cases bracket : isBracket c with
    | true =>
      rw [brackets, List.filter_cons_of_pos bracket, ← brackets, awaited, List.foldlM_cons, awaited,
        List.foldlM_cons]
      exact congrArg _ (funext ih)
    | false =>
      rw [brackets, List.filter_cons_of_neg (by simp [bracket]), ← brackets, ih, awaited, awaited,
        List.foldlM_cons, awaitedAfter_of_other bracket]
      rfl

theorem balanced_brackets : t.brackets.Balanced ↔ t.Balanced := by
  rw [Balanced, Balanced, awaited_brackets]

/-- What is awaited further out is still awaited after the text. -/
theorem awaited_append_of (found : awaited before t = some after) (outer : List Char) :
    awaited (before ++ outer) t = some (after ++ outer) := by
  induction t generalizing before with
  | nil =>
    cases found
    rfl
  | cons c rest ih =>
    rw [awaited, List.foldlM_cons] at found ⊢
    obtain ⟨middle, first, later⟩ := Option.bind_eq_some_iff.mp found
    rw [awaitedAfter_append first]
    exact ih later

namespace Balanced

theorem awaited (balanced : t.Balanced) (before : List Char) : t.awaited before = some before :=
  awaited_append_of balanced before

theorem nil : Balanced [] := rfl

theorem append (first : t.Balanced) (second : u.Balanced) : Balanced (t ++ u) := by
  rw [Balanced, awaited_append, first]
  exact second

theorem of_brackets (none : t.brackets = []) : t.Balanced := by
  rw [← balanced_brackets, none]
  exact .nil

/-- A bracket that is closed first was opened before. -/
theorem not_of_closes {more : Text} (found : t.brackets = ')' :: more) : ¬ t.Balanced := by
  rw [← balanced_brackets, found, Balanced, Text.awaited, List.foldlM_cons]
  exact nofun

/-- A bracket that is opened last is not closed. -/
theorem not_of_opens {front : Text} (found : t.brackets = front ++ ['(']) : ¬ t.Balanced := by
  rw [← balanced_brackets, found, Balanced, awaited_append]
  intro balanced
  obtain ⟨before, _, opened⟩ := Option.bind_eq_some_iff.mp balanced
  cases opened

theorem enclosed (balanced : t.Balanced) (n : Nat) : (t.enclosed n).Balanced := by
  induction n with
  | zero => exact balanced
  | succ n ih =>
    have opens : Text.awaited [] ('(' :: (t.enclosed n ++ [')'])) =
        Text.awaited [')'] (t.enclosed n ++ [')']) := rfl
    rw [Text.enclosed, List.append_assoc, List.singleton_append, Balanced, opens, awaited_append,
      ih.awaited]
    rfl

end Balanced

end Text

end VyperFront
