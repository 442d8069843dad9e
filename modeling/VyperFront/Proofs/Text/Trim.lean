import Mathlib.Data.List.TakeWhile
import VyperFront.Text.CharClass

namespace VyperFront.Text

/-- There is nothing but blanks in the text. -/
def Blanks (t : Text) : Prop := ∀ c ∈ t, isBlank c = true

variable {t before after : Text}

theorem Blanks.reverse (blank : Blanks t) : Blanks t.reverse :=
  fun c member => blank c (List.mem_reverse.mp member)

theorem exists_trimLeft (t : Text) : ∃ before : Text, before.Blanks ∧ t = before ++ trimLeft t :=
  ⟨t.takeWhile isBlank, fun _ member => List.mem_takeWhile_imp member,
    (List.takeWhile_append_dropWhile ..).symm⟩

theorem trimLeft_append (blank : before.Blanks) (solid : ∀ c ∈ t.head?, isBlank c = false) :
    trimLeft (before ++ t) = t := by
  rw [trimLeft, List.dropWhile_append_of_pos blank]
  cases t with
  | nil => rfl
  | cons c rest => exact List.dropWhile_cons_of_neg (by simp [solid c rfl])

theorem trim_of_ends {a b : Char} (first : isBlank a = false) (last : isBlank b = false)
    (t : Text) : trim (a :: (t ++ [b])) = a :: (t ++ [b]) := by
  have left : trimLeft (a :: (t ++ [b])) = a :: (t ++ [b]) :=
    List.dropWhile_cons_of_neg (by simp [first])
  have back : (a :: (t ++ [b])).reverse = b :: (a :: t).reverse := by simp
  rw [trim, left, trimRight, back, List.dropWhile_cons_of_neg (by simp [last]), ← back,
    List.reverse_reverse]

theorem trim_surrounded (front : before.Blanks) (back : after.Blanks) (t : Text) :
    trim (before ++ t ++ after) = trim t := by
  rw [trim, trim, trimLeft, List.append_assoc, List.dropWhile_append_of_pos front, trimLeft,
    List.dropWhile_append]
  split
  · next all =>
    rw [List.isEmpty_iff.mp all, List.dropWhile_eq_nil_iff.mpr back]
  · rw [trimRight, trimRight, List.reverse_append, List.dropWhile_append_of_pos back.reverse]

/-- A text is its trimmed part with blanks around it. -/
theorem exists_trim (t : Text) :
    ∃ before after : Text, before.Blanks ∧ after.Blanks ∧ t = before ++ trim t ++ after := by
  obtain ⟨before, front, left⟩ := exists_trimLeft t
  obtain ⟨after, back, right⟩ := exists_trimLeft t.trimLeft.reverse
  have kept : trimLeft t = trim t ++ after.reverse := by
    have turned := congrArg List.reverse right
    rwa [List.reverse_reverse, List.reverse_append] at turned
  refine ⟨before, after.reverse, front, back.reverse, ?_⟩
  rw [List.append_assoc, ← kept]
  exact left

theorem trim_trim (t : Text) : t.trim.trim = t.trim := by
  obtain ⟨before, after, front, back, same⟩ := exists_trim t
  have surrounded := trim_surrounded front back t.trim
  rw [← same] at surrounded
  exact surrounded.symm

theorem length_trim_le (t : Text) : t.trim.length ≤ t.length := by
  obtain ⟨before, after, _, _, same⟩ := exists_trim t
  have total := congrArg List.length same
  rw [List.length_append, List.length_append] at total
  omega

end VyperFront.Text
