import Mathlib.Data.List.Induction
import Mathlib.Data.List.TakeWhile
import VyperFront.Text.Place

namespace VyperFront

namespace Text

theorem lastLine_concat (t : Text) (c : Char) :
    lastLine (t ++ [c]) = if c = '\n' then [] else lastLine t ++ [c] := by
  rw [lastLine, List.reverse_concat, List.takeWhile_cons]
  by_cases feed : c = '\n'
  · simp [feed]
  · simp [feed, lastLine]

theorem lastLine_of_not_mem {t : Text} (plain : '\n' ∉ t) : lastLine t = t := by
  rw [lastLine, List.takeWhile_eq_self_iff.mpr, List.reverse_reverse]
  intro c member
  have : c ≠ '\n' := by
    rintro rfl
    exact plain (List.mem_reverse.mp member)
  simpa using this

theorem lastLine_append_feed (front t : Text) : lastLine (front ++ '\n' :: t) = lastLine t := by
  induction t using List.reverseRecOn with
  | nil => rw [lastLine_concat, if_pos rfl, lastLine_of_not_mem (by simp)]
  | append_singleton t c ih =>
    rw [← List.cons_append, ← List.append_assoc, lastLine_concat, lastLine_concat, ih]

theorem lastLine_cons {t : Text} (inside : '\n' ∈ t) (c : Char) : lastLine (c :: t) = lastLine t := by
  obtain ⟨front, back, rfl⟩ := List.append_of_mem inside
  rw [← List.cons_append, lastLine_append_feed, lastLine_append_feed]

/-- A text with a line feed in it is what comes before its last line, and that line. -/
theorem exists_lastLine {t : Text} (feed : '\n' ∈ t) : ∃ front, t = front ++ '\n' :: lastLine t := by
  obtain ⟨line, before, same, inside⟩ := List.eq_append_cons_of_mem (List.mem_reverse.mpr feed)
  have whole : t = before.reverse ++ '\n' :: line.reverse := by
    rw [← List.reverse_reverse t, same]
    simp
  refine ⟨before.reverse, ?_⟩
  rw [whole, lastLine_append_feed, lastLine_of_not_mem (by simpa using inside)]

theorem feed_not_mem_lastLine (t : Text) : '\n' ∉ lastLine t := by
  intro inside
  have plain := List.mem_takeWhile_imp (List.mem_reverse.mp inside)
  simp at plain

theorem lastLine_append_of_not_mem {u : Text} (one : '\n' ∉ u) (t : Text) :
    lastLine (t ++ u) = lastLine t ++ u := by
  induction u using List.reverseRecOn with
  | nil => rw [List.append_nil, List.append_nil]
  | append_singleton u c ih =>
    rw [List.mem_append, List.mem_singleton, not_or] at one
    rw [← List.append_assoc, lastLine_concat, if_neg (Ne.symm one.2), ih one.1, List.append_assoc]

theorem mem_lastLine_cons {c d : Char} {t : Text} (member : d ∈ lastLine (c :: t)) :
    d ∈ lastLine t ∨ (d = c ∧ '\n' ∉ c :: t) := by
  by_cases later : '\n' ∈ t
  · exact .inl (lastLine_cons later c ▸ member)
  by_cases feed : c = '\n'
  · subst feed
    exact .inl (lastLine_append_feed [] t ▸ member)
  · have plain : '\n' ∉ c :: t := by simp [later, Ne.symm feed]
    rw [lastLine_of_not_mem plain] at member
    rw [lastLine_of_not_mem later]
    exact (List.mem_cons.mp member).symm.imp_right fun same => ⟨same, plain⟩

theorem endsLine_cons {c : Char} {t : Text} (ends : endsLine (c :: t) = true) :
    (t = [] ∧ c = '\n') ∨ endsLine t = true := by
  cases t with
  | nil => exact .inl ⟨rfl, by simpa [endsLine] using ends⟩
  | cons d rest => exact .inr (by simpa [endsLine] using ends)

theorem lastLine_of_endsLine {t : Text} (ends : t.endsLine = true) : lastLine t = [] := by
  obtain ⟨front, rfl⟩ := List.getLast?_eq_some_iff.mp (beq_iff_eq.mp ends)
  rw [lastLine_concat, if_pos rfl]

theorem lines_feed (t : Text) : lines ('\n' :: t) = [] :: lines t := by
  rw [lines, if_pos rfl]

theorem lines_cons {c : Char} (other : c ≠ '\n') (t : Text) :
    ∃ first rest, lines t = first :: rest ∧ lines (c :: t) = (c :: first) :: rest := by
  obtain ⟨first, rest, same⟩ := List.exists_cons_of_ne_nil (lines_ne_nil t)
  exact ⟨first, rest, same, by rw [lines, if_neg other, same]⟩

theorem takeWhile_append_cons {p : Char → Bool} {c : Char} (stops : p c = false) (t u : Text) :
    (t ++ c :: u).takeWhile p = t.takeWhile p := by
  induction t with
  | nil => rw [List.nil_append, List.takeWhile_cons_of_neg (Bool.eq_false_iff.mp stops)]; rfl
  | cons d t ih => rw [List.cons_append, List.takeWhile_cons, List.takeWhile_cons, ih]

theorem takeWhile_append_feed (t u : Text) :
    (t ++ '\n' :: u).takeWhile (· ≠ '\n') = t.takeWhile (· ≠ '\n') :=
  takeWhile_append_cons (by simp) t u

theorem lines_concat_feed (t : Text) : lines (t ++ ['\n']) = lines t ++ [[]] := by
  induction t with
  | nil => rfl
  | cons c rest ih =>
    by_cases feed : c = '\n'
    · rw [feed, List.cons_append, lines_feed, lines_feed, ih, List.cons_append]
    · obtain ⟨first, others, same, whole⟩ := lines_cons feed rest
      obtain ⟨front, more, also, longer⟩ := lines_cons feed (rest ++ ['\n'])
      rw [ih, same, List.cons_append] at also
      obtain ⟨rfl, rfl⟩ := List.cons.inj also
      rw [List.cons_append, longer, whole, List.cons_append]

theorem head?_lines (t : Text) : (lines t)[0]? = some (t.takeWhile (· ≠ '\n')) := by
  induction t with
  | nil => rfl
  | cons c rest ih =>
    by_cases feed : c = '\n'
    · simp [feed, lines_feed]
    · obtain ⟨first, others, same, whole⟩ := lines_cons feed rest
      rw [same] at ih
      rw [whole]
      simpa [feed] using ih

/-- The line that goes on after a front of the text. -/
theorem getElem?_lines_append (before after : Text) :
    (lines (before ++ after))[before.count '\n']? =
      some (lastLine before ++ after.takeWhile (· ≠ '\n')) := by
  induction before with
  | nil => exact head?_lines after
  | cons c rest ih =>
    by_cases feed : c = '\n'
    · have last : lastLine ('\n' :: rest) = lastLine rest := lastLine_append_feed [] rest
      rw [feed, List.cons_append, lines_feed, List.count_cons_self, List.getElem?_cons_succ, ih, last]
    · obtain ⟨first, others, same, whole⟩ := lines_cons feed (rest ++ after)
      rw [List.cons_append, whole, List.count_cons_of_ne feed]
      rw [same] at ih
      by_cases later : '\n' ∈ rest
      · obtain ⟨n, count⟩ := Nat.exists_eq_add_one.mpr (List.count_pos_iff.mpr later)
        rw [count, List.getElem?_cons_succ] at ih ⊢
        rw [ih, lastLine_cons later]
      · have plain : '\n' ∉ c :: rest := by simp [later, Ne.symm feed]
        rw [List.count_eq_zero_of_not_mem later, lastLine_of_not_mem later] at ih
        rw [List.count_eq_zero_of_not_mem later, lastLine_of_not_mem plain]
        simpa using ih

/-- The row and column of an offset, counted from zero: how many line feeds are before it,
and how many characters after the last of them. -/
def point (t : Text) (offset : Nat) : Nat × Nat :=
  ((t.take offset).count '\n', (lastLine (t.take offset)).length)

end Text

namespace Place

/-- The column past a text goes by its last line. -/
theorem column_advance (p : Place) (t : Text) :
    (p.advance t).column = if '\n' ∈ t then t.lastLine.length + 1 else p.column + t.length := by
  induction t using List.reverseRecOn with
  | nil => rfl
  | append_singleton t c ih =>
    rw [advance_append, Text.lastLine_concat]
    by_cases feed : c = '\n'
    · simp [advance, next, feed]
    · have step : ((p.advance t).advance [c]).column = (p.advance t).column + 1 := by
        simp [advance, next, feed]
      rw [step, ih, if_neg feed]
      by_cases later : '\n' ∈ t
      · rw [if_pos later, if_pos (List.mem_append_left _ later), List.length_append]
        rfl
      · rw [if_neg later, if_neg (by simp [later, Ne.symm feed]), List.length_append]
        rfl

theorem column_advance_start (t : Text) :
    (start.advance t).column = t.lastLine.length + 1 := by
  rw [column_advance]
  split
  · rfl
  · next one => rw [Text.lastLine_of_not_mem one, start, Nat.add_comm]

/-- Whether the place is one of the text: what comes of going past a front of it. -/
def In (text : Text) (p : Place) : Prop := ∃ before, before <+: text ∧ p = start.advance before

variable {text : Text} {p : Place}

theorem In.offset_le (placed : p.In text) : p.offset ≤ text.length := by
  obtain ⟨before, front, rfl⟩ := placed
  rw [offset_advance, start, Nat.zero_add]
  exact front.length_le

theorem In.point (placed : p.In text) : (p.line - 1, p.column - 1) = text.point p.offset := by
  obtain ⟨before, front, rfl⟩ := placed
  have offset : (start.advance before).offset = before.length := by
    rw [offset_advance, start, Nat.zero_add]
  rw [offset, Text.point, ← List.prefix_iff_eq_take.mp front, column_advance_start, line_advance,
    start, Nat.add_sub_cancel_left, Nat.add_sub_cancel]

/-- Whether a character of the text is at the place. -/
def Inside (text : Text) (p : Place) : Prop :=
  ∃ before after, text = before ++ after ∧ after ≠ [] ∧ p = start.advance before

theorem inside_start (some : text ≠ []) : Place.start.Inside text := ⟨[], text, rfl, some, rfl⟩

end Place

namespace Extent

/-- Whether the extent is that of a part of the text. -/
structure In (text : Text) (e : Extent) : Prop where
  start : e.start.In text
  stop : e.stop.In text
  forward : e.start.offset < e.stop.offset

end Extent

end VyperFront
