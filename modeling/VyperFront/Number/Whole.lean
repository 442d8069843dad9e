import VyperFront.Text.Basic
import VyperFront.Text.CharClass

namespace VyperFront

/-- The most digits that a whole number is read with. -/
def maxDigits : Nat := 4300

/-- A whole number with more digits than can be read. -/
structure TooLong where
  digits : Nat
  deriving DecidableEq, Repr

def TooLong.message (e : TooLong) : String :=
  s!"Exceeds the limit ({maxDigits} digits) for integer string conversion: value has " ++
    s!"{e.digits} digits; use sys.set_int_max_str_digits() to increase the limit"

/-- The value of digits of any script, in base ten. -/
def valueOf (digits : Text) : Nat :=
  digits.foldl (fun n c => n * 10 + (digitValue? c).getD 0) 0

/-- Reads a number of any number of digits up to the limit. -/
def readWhole (digits : Text) : Except TooLong Nat :=
  if maxDigits < digits.length then .error ⟨digits.length⟩ else .ok (valueOf digits)

variable {digits : Text} {n : Nat} {e : TooLong}

theorem readWhole_eq_ok_iff :
    readWhole digits = .ok n ↔ digits.length ≤ maxDigits ∧ valueOf digits = n := by
  unfold readWhole
  split
  · next long => exact ⟨nofun, fun short => absurd long (Nat.not_lt.mpr short.1)⟩
  · next short =>
    rw [Except.ok.injEq]
    exact ⟨fun same => ⟨Nat.not_lt.mp short, same⟩, And.right⟩

theorem readWhole_eq_error_iff :
    readWhole digits = .error e ↔ maxDigits < digits.length ∧ e = ⟨digits.length⟩ := by
  unfold readWhole
  split
  · next long =>
    rw [Except.error.injEq]
    exact ⟨fun same => ⟨long, same.symm⟩, fun same => same.2.symm⟩
  · next short => exact ⟨nofun, fun long => absurd long.1 short⟩

end VyperFront
