import Emend.Binary64.Basic

/-! Numbers in decimal: the fewest digits that read back as the same number, a fixed number of
places, and the reading of numerals. -/

namespace Emend.Binary64

open Text

/-- Digits `d` and an exponent `p` stand for `0.d · 10 ^ p`. -/
structure Digits where
  digits : Text
  point : Int
  deriving DecidableEq, Repr

/-- The decimal exponent `k` of a positive quotient: `10 ^ (k - 1) ≤ n / d < 10 ^ k`. The fuel
bounds how far below one the quotient may be. -/
def decimalExponent (n d : Nat) : Int :=
  if d ≤ n then (Nat.toDigits 10 (n / d)).length
  else below 400 n 0
where
  below : Nat → Nat → Int → Int
    | 0, _, k => k
    | fuel + 1, n, k => if d ≤ n * 10 then k else below fuel (n * 10) (k - 1)

def tenths (n d : Nat) (exponent : Int) : Nat × Nat :=
  if 0 ≤ exponent then (n, d * Nat.pow 10 exponent.toNat) else (n * Nat.pow 10 (-exponent).toNat, d)

/-- The digits with this many places that read back as the number and are nearest to it. The
quotient is given in quarters of the last bit, with the distances at which reading stops to give
the number back below and above it. -/
def nearestDigits? (n d lowGap highGap : Nat) (closed : Bool) (k : Int) (places : Nat) :
    Option Nat :=
  let (n', d') := tenths n d (k - places)
  let (low, _) := tenths lowGap d (k - places)
  let (high, _) := tenths highGap d (k - places)
  let down := n' / d'
  let up := down + 1
  let within (gap distance : Nat) : Bool := if closed then distance ≤ gap else distance < gap
  let downFits := within low (n' - down * d')
  let upFits := within high (up * d' - n')
  if downFits && upFits then
    let left := n' - down * d'
    let right := up * d' - n'
    some (if left < right || (left == right && down % 2 == 0) then down else up)
  else if downFits then some down
  else if upFits then some up
  else none

def firstPlaces (attempt : Nat → Option Nat) : Nat → Nat → Option (Nat × Nat)
  | 0, _ => none
  | fuel + 1, places =>
    match attempt places with
    | some digits => some (digits, places)
    | none => firstPlaces attempt fuel (places + 1)

/-- The fewest digits that read back as a positive number. -/
def shortest (significand : Nat) (exponent : Int) : Digits :=
  -- a quarter of the last bit is the unit, so that the gaps are whole
  let lowQuarters := if significand = normal && leastExponent < exponent then 1 else 2
  let (n, d) := ratio (4 * significand) (exponent - 2)
  let (low, _) := ratio lowQuarters (exponent - 2)
  let (high, _) := ratio 2 (exponent - 2)
  let k := decimalExponent n d
  match firstPlaces (nearestDigits? n d low high (significand % 2 == 0) k) 17 1 with
  | none => ⟨[], 0⟩
  | some (value, places) =>
    let written := Text.ofNat value
    let kept := (written.reverse.dropWhile (· == Text.zero)).reverse
    ⟨kept, k + (written.length - places : Int)⟩

def signedInt (n : Int) : Text :=
  (if n < 0 then units "-" else units "+") ++ Text.ofNat n.natAbs

/-- Digits in positional notation from `10 ^ -6` up to `10 ^ 21`, and with an exponent elsewhere. -/
def Digits.toText (number : Digits) : Text :=
  let count : Int := number.digits.length
  let point := number.point
  if count ≤ point && point ≤ 21 then
    number.digits ++ List.replicate (point - count).toNat Text.zero
  else if 0 < point && point ≤ 21 then
    number.digits.take point.toNat ++ units "." ++ number.digits.drop point.toNat
  else if -6 < point && point ≤ 0 then
    units "0." ++ List.replicate (-point).toNat Text.zero ++ number.digits
  else
    let fraction := number.digits.drop 1
    number.digits.take 1 ++ (if fraction.isEmpty then [] else units "." ++ fraction) ++
      units "e" ++ signedInt (point - 1)

/-- A number in the fewest digits that read back. Both zeros are written `0`. -/
def toText : Binary64 → Text
  | nan => units "NaN"
  | infinity negative => if negative then units "-Infinity" else units "Infinity"
  | finite negative significand exponent =>
    if significand = 0 then units "0"
    else (if negative then units "-" else []) ++ (shortest significand exponent).toText

/-- The nearest whole number to a quotient, an exact half going up. -/
def roundUp (numerator denominator : Nat) : Nat := (2 * numerator + denominator) / (2 * denominator)

def withPoint (places n : Nat) : Text :=
  let digits := Text.ofNat n
  let padded := List.replicate (places + 1 - digits.length) Text.zero ++ digits
  if places = 0 then padded
  else padded.take (padded.length - places) ++ units "." ++ padded.drop (padded.length - places)

/-- A number with a fixed number of places. From `10 ^ 21` on it is written as it reads back. -/
def toFixed (places : Nat) (number : Binary64) : Text :=
  match number with
  | finite _ significand exponent =>
    let (n, d) := ratio significand exponent
    if Nat.pow 10 21 * d ≤ n then number.toText
    else
      (if number.isNegative then units "-" else []) ++
        withPoint places (roundUp (n * Nat.pow 10 places) d)
  | other => other.toText

/-- Digits, then perhaps a point and more digits: the digits together, how many of them stand after
the point, and the rest. At least one digit is needed. -/
def readMantissa? (t : Text) : Option (Text × Nat × Text) :=
  let whole := t.takeWhile isDigit
  let rest := t.drop whole.length
  match rest with
  | dot :: more =>
    let fraction := more.takeWhile isDigit
    if whole.isEmpty && fraction.isEmpty then none
    else some (whole ++ fraction, fraction.length, more.drop fraction.length)
  | _ => if whole.isEmpty then none else some (whole, 0, rest)

def readExponent? (t : Text) : Option Int :=
  let (negative, digits) := match t with
    | plus :: rest => (false, rest)
    | hyphen :: rest => (true, rest)
    | _ => (false, t)
  if digits.isEmpty || !digits.all isDigit then none
  else some (if negative then -(decimalValue digits : Int) else decimalValue digits)

def readUnsigned? (negative : Bool) (t : Text) : Option Binary64 := do
  let (digits, places, rest) ← readMantissa? t
  match rest with
  | [] => some (ofDecimal negative (decimalValue digits) (-places))
  | u :: more =>
    if u = 0x65 || u = 0x45 then
      let exponent ← readExponent? more
      some (ofDecimal negative (decimalValue digits) (exponent - places))
    else none

def readSigned? (t : Text) : Option Binary64 :=
  let unsigned (negative : Bool) (t : Text) : Option Binary64 :=
    if t = units "Infinity" then some (.infinity negative) else readUnsigned? negative t
  match t with
  | plus :: rest => unsigned false rest
  | hyphen :: rest => unsigned true rest
  | _ => unsigned false t

/-- A whole number in a base after its two-letter lead. -/
def readBase? (base : Nat) (t : Text) : Option Binary64 :=
  if t.isEmpty then none
  else do
    let value ← t.foldlM (fun value u => do
      let digit ← hexValue? u
      if digit < base then some (value * base + digit) else none) 0
    some (ofNat value)

/-- The number that a text writes: blanks around it are ignored, nothing writes zero, and a text
that writes no number gives NaN. The leads `0x`, `0o` and `0b` take no sign. -/
def ofText (t : Text) : Binary64 :=
  let numeral := trim t
  let base? : Option Nat := match numeral with
    | 0x30 :: u :: _ =>
      if u = 0x78 || u = 0x58 then some 16
      else if u = 0x6F || u = 0x4F then some 8
      else if u = 0x62 || u = 0x42 then some 2
      else none
    | _ => none
  if numeral.isEmpty then zero
  else match base? with
    | some base => (readBase? base (numeral.drop 2)).getD nan
    | none => (readSigned? numeral).getD nan

end Emend.Binary64
