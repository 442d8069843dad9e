namespace VyperFront

/-- A double. A finite one is its mantissa times a power of two; the mantissa has
53 binary digits, or fewer where the exponent is the least. -/
inductive Double where
  | finite (negative : Bool) (mantissa : Nat) (exponent : Int)
  | infinite (negative : Bool)
  | notANumber
  deriving DecidableEq, Repr

namespace Double

def digits : Nat := 53
def leastExponent : Int := -1074
def greatestExponent : Int := 971

def zero (negative : Bool) : Double := finite negative 0 leastExponent

/-- The whole number nearest to a fraction. Halves go to the even neighbour. -/
def nearest (num den : Nat) : Nat :=
  let quotient := num / den
  let rest := 2 * (num % den)
  if rest < den then quotient
  else if den < rest then quotient + 1
  else quotient + quotient % 2

/-- The whole number nearest to a fraction divided by a power of two. -/
def nearestScaled (num den : Nat) (exponent : Int) : Nat :=
  match exponent with
  | .ofNat e => nearest num (den * Nat.pow 2 e)
  | .negSucc e => nearest (num * Nat.pow 2 (e + 1)) den

/-- The double with the mantissa, which may have one more digit than it should. -/
def ofMantissa (negative : Bool) (mantissa : Nat) (exponent : Int) : Double :=
  if mantissa < Nat.pow 2 digits then
    if exponent ≤ greatestExponent then finite negative mantissa exponent else infinite negative
  else if exponent < greatestExponent then finite negative (mantissa / 2) (exponent + 1)
  else infinite negative

/-- The double nearest to a positive fraction. -/
def ofFraction (negative : Bool) (num den : Nat) : Double :=
  let guess : Int := (num.log2 : Int) - den.log2 - digits
  let low := nearestScaled num den guess
  let exponent := if low < Nat.pow 2 digits then guess else guess + 1
  let exponent := max exponent leastExponent
  ofMantissa negative (nearestScaled num den exponent) exponent

/-- The double nearest to a whole number times a power of ten. -/
def ofDecimal (negative : Bool) (number : Nat) (power : Int) : Double :=
  if number = 0 then zero negative
  else
    let magnitude : Int := (Nat.toDigits 10 number).length + power
    if 310 < magnitude then infinite negative
    else if magnitude < -330 then zero negative
    else
      match power with
      | .ofNat p => ofFraction negative (number * Nat.pow 10 p) 1
      | .negSucc p => ofFraction negative number (Nat.pow 10 (p + 1))

/-- The magnitude of a finite double as a fraction. -/
def fraction (mantissa : Nat) (exponent : Int) : Nat × Nat :=
  match exponent with
  | .ofNat e => (mantissa * Nat.pow 2 e, 1)
  | .negSucc e => (mantissa, Nat.pow 2 (e + 1))

def isFinite : Double → Bool
  | finite .. => true
  | _ => false

def isZero : Double → Bool
  | finite _ mantissa _ => mantissa = 0
  | _ => false

/-- The whole number that a double is, if it is one. -/
def whole? : Double → Option Int
  | finite negative mantissa exponent =>
    let (num, den) := fraction mantissa exponent
    if num % den = 0 then
      let magnitude : Int := num / den
      some (if negative then -magnitude else magnitude)
    else none
  | _ => none

end Double

end VyperFront
