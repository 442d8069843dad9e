import Mathlib.Data.List.Forall2
import VyperFront.Diagnostic.Hint
import VyperFront.Proofs.Text.Place
import VyperFront.Text.Basic

namespace VyperFront

namespace Text

/-- The text with a carriage return before each line feed. -/
def withReturns (t : Text) : Text := t.flatMap fun c => if c = '\n' then ['\r', '\n'] else [c]

/-- The text without the carriage returns that stand before line feeds. -/
def withoutReturns : Text → Text
  | [] => []
  | '\r' :: '\n' :: rest => '\n' :: withoutReturns rest
  | c :: rest => c :: withoutReturns rest

/-- Carriage returns stand before line feeds only. -/
inductive Paired : Text → Prop where
  | nil : Paired []
  | feedAfterReturn (rest : Paired t) : Paired ('\r' :: '\n' :: t)
  | cons (other : c ≠ '\r') (rest : Paired t) : Paired (c :: t)

variable {t front line more : Text} {c : Char}

theorem withoutReturns_cons (other : c ≠ '\r') (t : Text) :
    withoutReturns (c :: t) = c :: withoutReturns t := by
  rw [withoutReturns]
  rintro rest same
  exact absurd same other

theorem withoutReturns_of_no_feed (plain : '\n' ∉ t) : withoutReturns t = t := by
  fun_induction withoutReturns t with
  | case1 => rfl
  | case2 => simp at plain
  | case3 c rest _ ih => rw [ih fun inside => plain (List.mem_cons_of_mem c inside)]

theorem paired_of_not_mem (plain : '\r' ∉ t) : Paired t := by
  induction t with
  | nil => exact .nil
  | cons c rest ih =>
    rw [List.mem_cons, not_or] at plain
    exact .cons (Ne.symm plain.1) (ih plain.2)

theorem withoutReturns_of_not_mem (plain : '\r' ∉ t) : withoutReturns t = t := by
  induction t with
  | nil => rfl
  | cons c rest ih =>
    rw [List.mem_cons, not_or] at plain
    rw [withoutReturns_cons (Ne.symm plain.1), ih plain.2]

/-- A text whose front does not end between a carriage return and a line feed. -/
theorem Paired.withoutReturns_append (paired : Paired front) (t : Text) :
    withoutReturns (front ++ t) = withoutReturns front ++ withoutReturns t := by
  induction paired with
  | nil => rfl
  | feedAfterReturn _ ih => exact congrArg ('\n' :: ·) ih
  | cons other _ ih =>
    rw [List.cons_append, withoutReturns_cons other, withoutReturns_cons other, ih, List.cons_append]

theorem withoutReturns_append (plain : '\r' ∉ line) (t : Text) :
    withoutReturns (line ++ t) = line ++ withoutReturns t := by
  rw [(paired_of_not_mem plain).withoutReturns_append, withoutReturns_of_not_mem plain]

theorem paired_iff : Paired t ↔ '\r' ∉ withoutReturns t := by
  constructor
  · intro paired
    induction paired with
    | nil => simp [withoutReturns]
    | feedAfterReturn _ ih => simp [withoutReturns, ih]
    | cons other _ ih => simp [withoutReturns_cons other, ih, Ne.symm other]
  · intro plain
    fun_induction withoutReturns t with
    | case1 => exact .nil
    | case2 rest ih => exact .feedAfterReturn (ih (by simpa using plain))
    | case3 c rest _ ih =>
      rw [List.mem_cons, not_or] at plain
      exact .cons (Ne.symm plain.1) (ih plain.2)

theorem Paired.append_iff (paired : Paired front) : Paired (front ++ t) ↔ Paired t := by
  rw [paired_iff, paired.withoutReturns_append, List.mem_append, not_or,
    and_iff_right (paired_iff.mp paired), paired_iff]

/-- Where carriage returns stand before line feeds only, nothing else is done to them. -/
theorem Paired.unifyBreaks_eq (paired : Paired t) : unifyBreaks t = withoutReturns t := by
  induction paired with
  | nil => rfl
  | feedAfterReturn _ ih => exact congrArg ('\n' :: ·) ih
  | @cons c rest other _ ih =>
    rw [withoutReturns_cons other, unifyBreaks, if_neg other, ih]
    rintro later same
    exact absurd same other

theorem withoutReturns_eq_nil_iff : withoutReturns t = [] ↔ t = [] := by
  fun_cases withoutReturns t <;> simp

theorem feed_mem_withoutReturns_iff : '\n' ∈ withoutReturns t ↔ '\n' ∈ t := by
  fun_induction withoutReturns t with
  | case1 => rfl
  | case2 rest ih => simp
  | case3 c rest _ ih => simp [ih]

theorem lastLine_withoutReturns (t : Text) : lastLine (withoutReturns t) = lastLine t := by
  fun_induction withoutReturns t with
  | case1 => rfl
  | case2 rest ih =>
    exact (lastLine_append_feed [] _).trans (ih.trans (lastLine_append_feed ['\r'] rest).symm)
  | case3 c rest _ ih =>
    by_cases inside : '\n' ∈ rest
    · rw [lastLine_cons (feed_mem_withoutReturns_iff.mpr inside), ih, lastLine_cons inside]
    · rw [withoutReturns_of_no_feed inside]

theorem withoutReturns_lastLine (t : Text) : withoutReturns (lastLine t) = lastLine t :=
  withoutReturns_of_no_feed (feed_not_mem_lastLine t)

theorem withReturns_cons (c : Char) (t : Text) :
    withReturns (c :: t) = (if c = '\n' then ['\r', '\n'] else [c]) ++ withReturns t := rfl

theorem withoutReturns_withReturns (plain : '\r' ∉ t) (more : Text) :
    withoutReturns (withReturns t ++ more) = t ++ withoutReturns more := by
  induction t with
  | nil => rfl
  | cons c rest ih =>
    rw [List.mem_cons, not_or] at plain
    rw [withReturns_cons, List.append_assoc]
    split
    · next feed =>
      subst feed
      exact congrArg ('\n' :: ·) (ih plain.2)
    · rw [List.singleton_append, withoutReturns_cons (Ne.symm plain.1), ih plain.2]
      rfl

/-- The line with a carriage return at its end, or without. -/
def Returned (line other : Text) : Prop := line = other ∨ line = other ++ ['\r']

theorem trim_return (t : Text) : trim (t ++ ['\r']) = trim t := by
  have blank : isBlank '\r' = true := by decide
  have right (t : Text) : trimRight (t ++ ['\r']) = trimRight t := by
    simp [trimRight, blank]
  rw [trim, trim, trimLeft, trimLeft, List.dropWhile_append]
  split
  · next all => simp [List.isEmpty_iff.mp all, blank]
  · exact right _

theorem Returned.trim_eq {other : Text} (returned : Returned line other) :
    trim line = trim other := by
  rcases returned with rfl | rfl
  · rfl
  · exact trim_return other

theorem lines_returned (t : Text) :
    List.Forall₂ Returned (lines t) (lines (withoutReturns t)) := by
  fun_induction withoutReturns t with
  | case1 => exact .cons (.inl rfl) .nil
  | case2 rest ih =>
    obtain ⟨first, others, feed, same⟩ := lines_cons (c := '\r') (by decide) ('\n' :: rest)
    rw [lines_feed] at feed
    cases feed
    rw [same, lines_feed]
    exact .cons (.inr rfl) ih
  | case3 c rest _ ih =>
    by_cases feed : c = '\n'
    · rw [feed, lines_feed, lines_feed]
      exact .cons (.inl rfl) ih
    · obtain ⟨first, others, here, same⟩ := lines_cons feed rest
      obtain ⟨line, more, there, also⟩ := lines_cons feed (withoutReturns rest)
      rw [here, there] at ih
      rw [same, also]
      obtain ⟨returned, later⟩ := List.forall₂_cons.mp ih
      refine .cons (returned.imp ?_ ?_) later
      · exact congrArg (c :: ·)
      · exact congrArg (c :: ·)

/-- The lines are the same without the blanks around them. -/
theorem lineAt?_withoutReturns (t : Text) (line : Int) :
    (withoutReturns t).lineAt? line = t.lineAt? line := by
  have empty : (withoutReturns t).isEmpty = t.isEmpty := by
    rw [Bool.eq_iff_iff, List.isEmpty_iff, List.isEmpty_iff, withoutReturns_eq_nil_iff]
  have trimmed : (lines t).map trim = (lines (withoutReturns t)).map trim := by
    rw [← List.forall₂_eq_eq_eq, List.forall₂_map_left_iff, List.forall₂_map_right_iff]
    exact (lines_returned t).imp fun _ _ => Returned.trim_eq
  rw [lineAt?, lineAt?, empty, ← List.getElem?_map, ← List.getElem?_map, trimmed]

end Text

namespace Place

theorem advance_withoutReturns {t : Text} (paired : t.Paired) {p q : Place}
    (line : q.line = p.line) (column : q.column = p.column) :
    (q.advance t.withoutReturns).line = (p.advance t).line ∧
      (q.advance t.withoutReturns).column = (p.advance t).column := by
  induction paired generalizing p q with
  | nil => exact ⟨line, column⟩
  | @feedAfterReturn rest _ ih =>
    refine ih (p := (p.next '\r').next '\n') (q := q.next '\n') ?_ rfl
    simp [next, line]
  | @cons c rest other _ ih =>
    rw [Text.withoutReturns_cons other]
    refine ih (p := p.next c) (q := q.next c) ?_ ?_
    · unfold next
      split <;> simp [line]
    · unfold next
      split <;> simp [column]

end Place

end VyperFront
