import Emend.Text.Basic

/-! Binary floating point with 53 significant bits, computed exactly: a finite number is a sign, a
natural significand and a power of two, and every operation rounds a quotient of natural numbers
to the nearest such number, an exact half to the even one. -/

namespace Emend

inductive Binary64 where
  | nan
  | infinity (negative : Bool)
  | finite (negative : Bool) (significand : Nat) (exponent : Int)
  deriving DecidableEq, Repr

namespace Binary64

def leastExponent : Int := -1074

def greatestExponent : Int := 971

/-- The significand of a normal number is at least this, `2 ^ 52`, and less than twice it. -/
def normal : Nat := 0x10000000000000

def zero : Binary64 := .finite false 0 leastExponent

/-- A quotient of natural numbers divided by a power of two, as a quotient again. -/
def scaled (numerator denominator : Nat) (exponent : Int) : Nat × Nat :=
  if 0 ≤ exponent then (numerator, denominator * Nat.pow 2 exponent.toNat)
  else (numerator * Nat.pow 2 (-exponent).toNat, denominator)

/-- The nearest natural number to a quotient, an exact half going to the even neighbour. -/
def roundEven (numerator denominator : Nat) : Nat :=
  let quotient := numerator / denominator
  let twice := 2 * (numerator % denominator)
  if twice > denominator || (twice == denominator && quotient % 2 == 1) then quotient + 1
  else quotient

/-- The exponent at which a positive quotient has 53 significant bits, if it is not too small. -/
def exponentOf (numerator denominator : Nat) : Int :=
  let guess : Int := (numerator.log2 : Int) - denominator.log2 - 52
  let (n, d) := scaled numerator denominator guess
  max leastExponent (if n / d < normal then guess - 1 else guess)

def ofRatio (negative : Bool) (numerator denominator : Nat) : Binary64 :=
  if numerator = 0 then .finite negative 0 leastExponent
  else
    let exponent := exponentOf numerator denominator
    let (n, d) := scaled numerator denominator exponent
    let significand := roundEven n d
    let (significand, exponent) :=
      if significand = 2 * normal then (normal, exponent + 1) else (significand, exponent)
    if greatestExponent < exponent then .infinity negative
    else .finite negative significand exponent

def ofNat (n : Nat) : Binary64 := ofRatio false n 1

def ofInt (n : Int) : Binary64 := ofRatio (n < 0) n.natAbs 1

/-- The number nearest to `digits · 10 ^ exponent`. Exponents far beyond the range are settled
without computing the power. -/
def ofDecimal (negative : Bool) (digits : Nat) (exponent : Int) : Binary64 :=
  let magnitude : Int := (Nat.toDigits 10 digits).length + exponent
  if digits = 0 then .finite negative 0 leastExponent
  else if 400 < magnitude then .infinity negative
  else if magnitude < -400 then .finite negative 0 leastExponent
  else if 0 ≤ exponent then ofRatio negative (digits * Nat.pow 10 exponent.toNat) 1
  else ofRatio negative digits (Nat.pow 10 (-exponent).toNat)

def isFinite : Binary64 → Bool
  | finite .. => true
  | _ => false

def ratio (significand : Nat) (exponent : Int) : Nat × Nat := scaled significand 1 (-exponent)

/-- The order of numbers, in which both zeros are equal and a NaN is below nothing. -/
def lt : Binary64 → Binary64 → Bool
  | nan, _ | _, nan => false
  | infinity negative, infinity negative' => negative && !negative'
  | infinity negative, finite .. => negative
  | finite .., infinity negative => !negative
  | finite s m e, finite s' m' e' =>
    let (n, d) := ratio m e
    let (n', d') := ratio m' e'
    let left : Int := if s then -(n * d' : Nat) else (n * d' : Nat)
    let right : Int := if s' then -(n' * d : Nat) else (n' * d : Nat)
    left < right

/-- Not below, and no NaN on either side. -/
def ge (a b : Binary64) : Bool := lt b a || (a != nan && b != nan && !lt a b)

/-- The greatest whole number that is not above a number. Zero keeps its sign. -/
def floor : Binary64 → Binary64
  | finite negative significand exponent =>
    if significand = 0 then .finite negative 0 leastExponent
    else
      let (n, d) := ratio significand exponent
      if negative then ofRatio true ((n + d - 1) / d) 1 else ofRatio false (n / d) 1
  | other => other

/-- The whole part of a number that is not negative; zero for the others. -/
def toNat : Binary64 → Nat
  | finite false significand exponent =>
    let (n, d) := ratio significand exponent
    n / d
  | _ => 0

def divNat (number : Binary64) (divisor : Nat) : Binary64 :=
  match number with
  | finite negative significand exponent =>
    let (n, d) := ratio significand exponent
    ofRatio negative n (d * divisor)
  | other => other

def isZero : Binary64 → Bool
  | finite _ significand _ => significand == 0
  | _ => false

def isNegative (number : Binary64) : Bool := lt number zero

end Binary64

end Emend
