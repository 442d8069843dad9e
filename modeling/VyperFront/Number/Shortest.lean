import VyperFront.Number.Double
import VyperFront.Text.Basic

namespace VyperFront.Double

/-- A decimal: the digits, and where the point is, counted from their front. -/
structure Decimal where
  number : Nat
  point : Int
  deriving DecidableEq, Repr

/-- The fraction in units of a power of ten, rounded down. -/
def units (num den : Nat) (power : Int) : Nat :=
  match power with
  | .ofNat p => num / (den * Nat.pow 10 p)
  | .negSucc p => num * Nat.pow 10 (p + 1) / den

/-- How far a number of units is from the fraction, in parts that do not depend on
the number. -/
def distance (num den : Nat) (power : Int) (number : Nat) : Nat :=
  let (exact, given) : Nat × Nat := match power with
    | .ofNat p => (num, number * (den * Nat.pow 10 p))
    | .negSucc p => (num * Nat.pow 10 (p + 1), number * den)
  (exact - given) + (given - exact)

/-- The power of ten of the first digit of a positive fraction. -/
def leadingPower (num den : Nat) : Int :=
  let guess : Int := (Nat.toDigits 10 num).length - (Nat.toDigits 10 den).length
  if units num den guess = 0 then guess - 1 else guess

/-- Of two neighbouring numbers of units, the one nearer to the fraction. Halfway
between them it is the even one. -/
def nearer (num den : Nat) (power : Int) (low : Nat) : Nat :=
  let below := distance num den power low
  let above := distance num den power (low + 1)
  if below < above then low
  else if above < below then low + 1
  else low + low % 2

/-- Of the two decimals around the fraction, in units of a power of ten, the one
that reads back; of two, the nearer. -/
def candidate? (mantissa : Nat) (exponent : Int) (power : Int) : Option Nat :=
  let (num, den) := fraction mantissa exponent
  let low := units num den power
  let readsBack (number : Nat) : Bool :=
    ofDecimal false number power = finite false mantissa exponent
  match readsBack low, readsBack (low + 1) with
  | true, true => some (nearer num den power low)
  | true, false => some low
  | false, true => some (low + 1)
  | false, false => none

/-- The shortest digits for a finite double that is not zero. Seventeen always
read back. -/
def shortest (mantissa : Nat) (exponent : Int) : Decimal :=
  let (num, den) := fraction mantissa exponent
  let leading := leadingPower num den
  let found := (List.range 17).findSome? fun (count : Nat) =>
    let power := leading - count
    (candidate? mantissa exponent power).map fun number => (number, power)
  let (number, power) := found.getD (0, 0)
  ⟨number, (Nat.toDigits 10 number).length + power⟩

/-- The digits of a decimal, without zeros at the end. -/
def Decimal.digits (d : Decimal) : Text :=
  let written := Nat.toDigits 10 d.number
  (written.reverse.dropWhile (· = '0')).reverse

/-- An exponent with a sign and two digits at least. -/
def exponentText (e : Int) : Text :=
  let written := Nat.toDigits 10 e.natAbs
  'e' :: (if e < 0 then '-' else '+') :: List.replicate (2 - written.length) '0' ++ written

/-- The decimal in writing. The point is written out from a ten-thousandth up to
numbers of sixteen digits; beyond there is an exponent. -/
def Decimal.text (d : Decimal) : Text :=
  let digits := d.digits
  let zeros (n : Int) : Text := List.replicate n.toNat '0'
  if d.point ≤ -4 ∨ 16 < d.point then
    let tail := digits.drop 1
    digits.take 1 ++ (if tail.isEmpty then [] else '.' :: tail) ++ exponentText (d.point - 1)
  else if d.point ≤ 0 then "0.".toList ++ zeros (-d.point) ++ digits
  else
    let before := digits.take d.point.toNat ++ zeros (d.point - digits.length)
    let after := digits.drop d.point.toNat
    before ++ '.' :: (if after.isEmpty then ['0'] else after)

def text : Double → Text
  | notANumber => "nan".toList
  | infinite negative => (if negative then "-" else "").toList ++ "inf".toList
  | finite negative mantissa exponent =>
    (if negative then ['-'] else []) ++
      (if mantissa = 0 then "0.0".toList else (shortest mantissa exponent).text)

end VyperFront.Double
