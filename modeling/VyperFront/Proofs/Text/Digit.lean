import Mathlib.Data.List.Basic
import Mathlib.Data.Nat.Digits.Defs
import VyperFront.Number.Whole

namespace VyperFront

variable {c : Char} {n value : Nat} {digits : Text} {values : List Nat}

namespace Digit

theorem exists_first {zeros : List Nat} (found : valueFrom zeros n = some value) :
    ∃ first ∈ zeros, n = first + value ∧ value < 10 := by
  induction zeros with
  | nil => cases found
  | cons first rest ih =>
    rw [valueFrom] at found
    split at found
    · cases found
    · split at found
      · obtain rfl := Option.some.inj found
        exact ⟨first, List.mem_cons_self, by omega, by omega⟩
      · obtain ⟨other, member, place⟩ := ih found
        exact ⟨other, List.mem_cons_of_mem first member, place⟩

private theorem zeros_checked :
    ((0x30 :: zeros).all fun first => (List.range 10).all fun i => !blankRanges.has (first + i)) =
      true := by
  decide

/-- A digit is one of the ten of a script. -/
theorem exists_script (found : digitValue? c = some value) :
    ∃ first ∈ 0x30 :: zeros, c.toNat = first + value ∧ value < 10 := by
  rw [digitValue?] at found
  split at found
  · obtain ⟨first, member, place⟩ := exists_first found
    obtain rfl := List.mem_singleton.mp member
    exact ⟨_, List.mem_cons_self, place⟩
  · obtain ⟨first, member, place⟩ := exists_first found
    exact ⟨first, List.mem_cons_of_mem _ member, place⟩

end Digit

theorem not_isBlank_of_digit (digit : isDecimalDigit c = true) : isBlank c = false := by
  obtain ⟨value, found⟩ := Option.isSome_iff_exists.mp digit
  obtain ⟨first, member, same, below⟩ := Digit.exists_script found
  have checked := List.all_eq_true.mp Digit.zeros_checked first member
  have solid := List.all_eq_true.mp checked value (List.mem_range.mpr below)
  rw [isBlank, CharClass.contains, same]
  simpa using solid

theorem digitValue?_of_isDigit (digit : c.isDigit = true) :
    digitValue? c = some (c.toNat - '0'.toNat) := by
  have range : 0x30 ≤ c.toNat ∧ c.toNat ≤ 0x39 := by
    simpa [Char.isDigit, UInt32.le_iff_toNat_le] using digit
  rw [digitValue?, if_pos (by omega), Digit.valueFrom, if_neg (by omega), if_pos (by omega)]
  rfl

theorem isDecimalDigit_of_isDigit (digit : c.isDigit = true) : isDecimalDigit c = true := by
  rw [isDecimalDigit, digitValue?_of_isDigit digit, Option.isSome_some]

theorem exists_values (decimal : ∀ c ∈ digits, isDecimalDigit c = true) :
    ∃ values : List Nat, digits.map digitValue? = values.map some ∧ ∀ v ∈ values, v < 10 := by
  induction digits with
  | nil => exact ⟨[], rfl, by simp⟩
  | cons c rest ih =>
    obtain ⟨digit, others⟩ := List.forall_mem_cons.mp decimal
    obtain ⟨value, found⟩ := Option.isSome_iff_exists.mp digit
    obtain ⟨_, _, _, below⟩ := Digit.exists_script found
    obtain ⟨values, same, small⟩ := ih others
    exact ⟨value :: values, by rw [List.map_cons, List.map_cons, found, same],
      List.forall_mem_cons.mpr ⟨below, small⟩⟩

/-- The value of digits is that of their values in base ten, the last one counting least. -/
theorem valueOf_eq_ofDigits (read : digits.map digitValue? = values.map some) :
    valueOf digits = Nat.ofDigits 10 values.reverse := by
  have known : digits.map (fun c => (digitValue? c).getD 0) = values := by
    have all := congrArg (List.map (·.getD 0)) read
    simpa [Function.comp_def] using all
  calc valueOf digits
      = (digits.map fun c => (digitValue? c).getD 0).foldl (fun n v => n * 10 + v) 0 :=
        List.foldl_map.symm
    _ = values.foldl (fun n v => v + 10 * n) 0 := by
        rw [known]
        congr 1
        funext n v
        omega
    _ = Nat.ofDigits 10 values.reverse := by
        rw [Nat.ofDigits_eq_foldr, List.foldr_reverse]
        rfl

theorem valueOf_eq_ofDigitChars (ascii : ∀ c ∈ digits, c.isDigit = true) :
    valueOf digits = Nat.ofDigitChars 10 digits 0 := by
  refine List.foldl_ext _ _ 0 fun n c member => ?_
  rw [digitValue?_of_isDigit (ascii c member), Option.getD_some, Nat.mul_comm]

/-- A number is read back from its digits. -/
theorem valueOf_toDigits (n : Nat) : valueOf (Nat.toDigits 10 n) = n := by
  rw [valueOf_eq_ofDigitChars fun c member =>
    Nat.isDigit_of_mem_toDigits (by decide) (Nat.le_refl 10) member]
  exact Nat.ofDigitChars_ten_toDigits

theorem valueOf_zeros_append (zeros : Nat) (digits : Text) :
    valueOf (List.replicate zeros '0' ++ digits) = valueOf digits := by
  induction zeros with
  | zero => rfl
  | succ zeros ih => exact ih

end VyperFront
