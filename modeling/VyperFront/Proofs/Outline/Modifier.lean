import VyperFront.Outline.Declaration
import VyperFront.Proofs.Text.Bracket
import VyperFront.Proofs.Text.Trim

namespace VyperFront

namespace Text

theorem trim_infix (t : Text) : t.trim <:+: t := by
  have right : t.trim <+: t.trimLeft := by
    rw [trim, trimRight, ← List.reverse_suffix, List.reverse_reverse]
    exact List.dropWhile_suffix isBlank
  exact right.isInfix.trans (List.dropWhile_suffix isBlank).isInfix

theorem isBracket_of_isBlank {c : Char} (blank : isBlank c = true) : isBracket c = false := by
  have solid : (['(', ')', '[', ']', '\x7b', '\x7d'].all fun c => !isBlank c) = true := by decide
  cases bracket : isBracket c with
  | false => rfl
  | true =>
    have other := List.all_eq_true.mp solid c (List.contains_iff_mem.mp bracket)
    rw [blank] at other
    cases other

theorem brackets_dropWhile (t : Text) : brackets (t.dropWhile isBlank) = t.brackets := by
  induction t with
  | nil => rfl
  | cons c rest ih =>
    rw [List.dropWhile_cons]
    split
    · next blank =>
      rw [ih, brackets, brackets, List.filter_cons_of_neg (by simp [isBracket_of_isBlank blank])]
    · rfl

theorem brackets_trim (t : Text) : brackets t.trim = t.brackets := by
  have reversed (u : Text) : brackets u.reverse = u.brackets.reverse := List.filter_reverse ..
  rw [trim, trimRight, reversed, brackets_dropWhile, reversed, List.reverse_reverse, trimLeft,
    brackets_dropWhile]

end Text

namespace Modifier

/-- The modifier put on a text. -/
def call (m : Modifier) (argument : Text) : Text := m.text.toList ++ ['('] ++ argument ++ [')']

/-- The text is no modifier put on something. -/
def Plain (t : Text) : Prop := ∀ (m : Modifier) (a : Text), t ≠ m.call a

/-- The text is the type with the modifiers put on it, the last of them first. Each time there may
be blanks around what is there. -/
inductive Wraps : List Modifier → Text → Text → Prop where
  | bare (front : before.Blanks) (back : after.Blanks) : Wraps [] type (before ++ type ++ after)
  | call (m : Modifier) (wraps : Wraps ms type t) (front : before.Blanks) (back : after.Blanks) :
    Wraps (m :: ms) type (before ++ m.call t ++ after)

variable {m n : Modifier} {t a b type before after : Text} {ms : List Modifier}

theorem argument?_eq_some_iff : m.argument? t = some a ↔ t = m.call a := by
  rw [argument?, call]
  constructor
  · intro found
    split at found
    · next opens =>
      dsimp only at found
      split at found
      · next closes =>
        obtain ⟨rest, rfl⟩ := List.isPrefixOf_iff_prefix.mp opens
        rw [List.drop_left] at closes found
        obtain ⟨front, rfl⟩ := List.getLast?_eq_some_iff.mp closes
        rw [List.dropLast_concat] at found
        obtain rfl := Option.some.inj found
        exact (List.append_assoc ..).symm
      · cases found
    · cases found
  · rintro rfl
    have opens : (m.text.toList ++ ['(']).isPrefixOf (m.text.toList ++ ['('] ++ a ++ [')']) = true :=
      List.isPrefixOf_iff_prefix.mpr ⟨a ++ [')'], (List.append_assoc ..).symm⟩
    rw [if_pos opens, List.append_assoc, List.drop_left]
    simp

theorem text_inj (same : m.text.toList = n.text.toList) : m = n := by
  have checked : ∀ m ∈ all, ∀ n ∈ all, m.text.toList = n.text.toList → m = n := by decide
  exact checked m (by cases m <;> decide) n (by cases n <;> decide) same

theorem takeWhile_call (m : Modifier) (a : Text) :
    (m.call a).takeWhile (· ≠ '(') = m.text.toList := by
  cases m <;> rfl

theorem call_inj : m.call a = n.call b ↔ m = n ∧ a = b := by
  constructor
  · intro same
    have front := congrArg (List.takeWhile (· ≠ '(')) same
    rw [takeWhile_call, takeWhile_call] at front
    obtain rfl := text_inj front
    exact ⟨rfl, List.append_cancel_left (List.append_cancel_right same)⟩
  · rintro ⟨rfl, rfl⟩
    rfl

theorem length_call (m : Modifier) (a : Text) : a.length < (m.call a).length := by
  simp [call]
  omega

theorem trim_text_append (m : Modifier) (t : Text) :
    Text.trim (m.text.toList ++ t ++ [')']) = m.text.toList ++ t ++ [')'] := by
  obtain ⟨first, rest, name, solid⟩ :
      ∃ first rest, m.text.toList = first :: rest ∧ isBlank first = false := by
    cases m <;> exact ⟨_, _, rfl, by decide⟩
  rw [name]
  exact Text.trim_of_ends solid (by decide) (rest ++ t)

theorem trim_call (m : Modifier) (a : Text) : (m.call a).trim = m.call a := by
  rw [call, List.append_assoc m.text.toList]
  exact m.trim_text_append _

theorem plain_or_eq_call (t : Text) : Plain t ∨ ∃ (m : Modifier) (a : Text), t = m.call a := by
  rw [or_iff_not_imp_left]
  intro other
  simpa only [Plain, ne_eq, not_forall, not_not] using other

theorem outermost?_eq_some_iff : outermost? t = some (m, a) ↔ t = m.call a := by
  have found_call {n : Modifier} {b : Text} (found : outermost? t = some (n, b)) :
      t = n.call b := by
    obtain ⟨k, _, same⟩ := List.exists_of_findSome?_eq_some found
    obtain ⟨_, argument, same⟩ := Option.map_eq_some_iff.mp same
    cases same
    exact argument?_eq_some_iff.mp argument
  refine ⟨found_call, fun called => ?_⟩
  have listed : (m.argument? t).map (m, ·) = some (m, a) := by
    rw [argument?_eq_some_iff.mpr called]
    rfl
  have some : (outermost? t).isSome = true :=
    List.findSome?_isSome_iff.mpr ⟨m, by cases m <;> decide, by rw [listed]; rfl⟩
  obtain ⟨⟨n, b⟩, found⟩ := Option.isSome_iff_exists.mp some
  obtain ⟨rfl, rfl⟩ := call_inj.mp ((found_call found).symm.trans called)
  exact found

theorem outermost?_eq_none_iff : outermost? t = none ↔ Plain t := by
  constructor
  · intro none m a called
    rw [outermost?_eq_some_iff.mpr called] at none
    cases none
  · intro bare
    cases found : outermost? t with
    | none => rfl
    | some outer => exact absurd (outermost?_eq_some_iff.mp found) (bare outer.1 outer.2)

/-- A modifier has no brackets but those around its argument. -/
theorem brackets_of_argument? (found : m.argument? t = some a) :
    a <:+: t ∧ t.brackets = a.brackets.enclosed 1 := by
  obtain rfl := argument?_eq_some_iff.mp found
  rw [call]
  have name : Text.brackets (m.text.toList ++ ['(']) = ['('] := by
    cases m <;> rfl
  refine ⟨⟨_, _, rfl⟩, ?_⟩
  rw [Text.brackets_append, Text.brackets_append, name]
  rfl

theorem splitFrom_brackets (steps : Nat) (t : Text) : (splitFrom steps t).2 <:+: t ∧
    t.brackets = Text.enclosed (splitFrom steps t).1.length (splitFrom steps t).2.brackets := by
  induction steps generalizing t with
  | zero => exact ⟨List.infix_rfl, rfl⟩
  | succ steps ih =>
    rw [splitFrom]
    split
    · exact ⟨List.infix_rfl, rfl⟩
    · next m a found =>
      obtain ⟨n, _, same⟩ := List.exists_of_findSome?_eq_some found
      obtain ⟨_, argument, same⟩ := Option.map_eq_some_iff.mp same
      cases same
      obtain ⟨inside, outer⟩ := brackets_of_argument? argument
      obtain ⟨part, inner⟩ := ih a.trim
      refine ⟨part.trans (a.trim_infix.trans inside), ?_⟩
      rw [outer, ← a.brackets_trim, inner, Text.enclosed_add, Nat.add_comm]
      rfl

/-- What is left without the modifiers is part of the text, and has all its brackets but one pair
for each modifier. -/
theorem split_brackets (t : Text) : (split t).2 <:+: t ∧
    t.brackets = Text.enclosed (split t).1.length (split t).2.brackets := by
  obtain ⟨part, same⟩ := splitFrom_brackets t.length t.trim
  rw [Text.brackets_trim] at same
  exact ⟨part.trans t.trim_infix, same⟩

/-- There are enough steps as soon as there is one for each character. -/
theorem splitFrom_congr {steps others : Nat} (enough : t.length ≤ steps)
    (also : t.length ≤ others) : splitFrom steps t = splitFrom others t := by
  induction steps generalizing t others with
  | zero =>
    obtain rfl := List.length_eq_zero_iff.mp (Nat.le_zero.mp enough)
    cases others <;> rfl
  | succ steps ih =>
    cases others with
    | zero =>
      obtain rfl := List.length_eq_zero_iff.mp (Nat.le_zero.mp also)
      rfl
    | succ others =>
      rw [splitFrom, splitFrom]
      cases found : outermost? t with
      | none => rfl
      | some outer =>
        obtain ⟨m, a⟩ := outer
        have shorter : a.trim.length < t.length :=
          outermost?_eq_some_iff.mp found ▸ Nat.lt_of_le_of_lt a.length_trim_le (m.length_call a)
        have inner : splitFrom steps a.trim = splitFrom others a.trim :=
          ih (by omega) (by omega)
        dsimp only
        rw [inner]

theorem split_surrounded (front : before.Blanks) (back : after.Blanks) (t : Text) :
    split (before ++ t ++ after) = split t := by
  have trimmed := t.length_trim_le
  rw [split, split, Text.trim_surrounded front back]
  apply splitFrom_congr _ trimmed
  rw [List.length_append, List.length_append]
  omega

theorem split_call (m : Modifier) (a : Text) :
    split (m.call a) = (m :: (split a).1, (split a).2) := by
  have shorter := m.length_call a
  have trimmed := a.length_trim_le
  obtain ⟨steps, more⟩ : ∃ steps, (m.call a).length = steps + 1 :=
    ⟨(m.call a).length - 1, by omega⟩
  have inner : splitFrom steps a.trim = splitFrom a.length a.trim :=
    splitFrom_congr (by omega) trimmed
  rw [split, trim_call, more, splitFrom, outermost?_eq_some_iff.mpr rfl, split]
  dsimp only
  rw [inner]

theorem split_of_plain (trimmed : t.trim = t) (plain : Plain t) : split t = ([], t) := by
  rw [split, trimmed]
  cases t with
  | nil => rfl
  | cons c rest => rw [List.length_cons, splitFrom, outermost?_eq_none_iff.mpr plain]

theorem split_trim (t : Text) : split t.trim = split t := by
  obtain ⟨before, after, front, back, same⟩ := t.exists_trim
  have surrounded := split_surrounded front back t.trim
  rw [← same] at surrounded
  exact surrounded.symm

theorem split_of_plain_trim (plain : Plain t.trim) : split t = ([], t.trim) := by
  rw [← split_trim, split_of_plain t.trim_trim plain]

/-- The outermost modifier of a text is put on what has the others. -/
theorem exists_of_split (same : split t = (m :: ms, type)) :
    ∃ a, t.trim = m.call a ∧ split a = (ms, type) := by
  rcases plain_or_eq_call t.trim with plain | ⟨n, a, called⟩
  · rw [split_of_plain_trim plain] at same
    cases same
  · rw [← split_trim, called, split_call] at same
    cases same
    exact ⟨a, called, rfl⟩

/-- What modifiers are put on is found again, if it is none of them on something else. -/
theorem Wraps.split_eq (wraps : Wraps ms type t) (trimmed : type.trim = type)
    (plain : Plain type) : split t = (ms, type) := by
  induction wraps with
  | bare front back => rw [split_surrounded front back, split_of_plain trimmed plain]
  | call m wraps front back ih => rw [split_surrounded front back, split_call, ih trimmed plain]

/-- Each text can be got so. This goes by the length of the text: a call is longer than what is
called on, with the blanks around that. -/
theorem exists_wraps (t : Text) :
    ∃ ms type, Wraps ms type t ∧ type.trim = type ∧ Plain type := by
  obtain ⟨before, after, front, back, same⟩ := t.exists_trim
  rcases plain_or_eq_call t.trim with plain | ⟨m, a, called⟩
  · have bare : Wraps [] t.trim (before ++ t.trim ++ after) := .bare front back
    rw [← same] at bare
    exact ⟨[], t.trim, bare, t.trim_trim, plain⟩
  · have shorter : a.length < t.length :=
      Nat.lt_of_lt_of_le (called ▸ m.length_call a) t.length_trim_le
    obtain ⟨ms, type, wraps, trimmed, plain⟩ := exists_wraps a
    refine ⟨m :: ms, type, ?_, trimmed, plain⟩
    rw [same, called]
    exact .call m wraps front back
termination_by t.length

/-- A text is split to the only modifiers and the only type that give it when they are put on the
type: the type has no blanks around it, and is no modifier on something itself. A modifier more
around any text is one modifier more in front, and what is left has none. -/
theorem split_wraps (t : Text) :
    (∀ ms type, split t = (ms, type) ↔ Wraps ms type t ∧ type.trim = type ∧ Plain type) ∧
      (∀ m : Modifier, split (m.call t) = (m :: (split t).1, (split t).2)) ∧
      split (split t).2 = ([], (split t).2) := by
  obtain ⟨ms, type, wraps, trimmed, plain⟩ := exists_wraps t
  have found := wraps.split_eq trimmed plain
  refine ⟨fun others other => ⟨fun same => ?_, ?_⟩, fun m => split_call m t, ?_⟩
  · cases found.symm.trans same
    exact ⟨wraps, trimmed, plain⟩
  · rintro ⟨wraps, trimmed, plain⟩
    exact wraps.split_eq trimmed plain
  · rw [found]
    exact split_of_plain trimmed plain

end Modifier

end VyperFront
