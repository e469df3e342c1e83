import Emend.Text.Basic
import Emend.Expression.Letters

/-! Names of groups: identifiers, any unit of which may be written as an escape. -/

namespace Emend.Expression

open Text

def beginsName (code : Nat) : Bool :=
  if code < 0x80 then
    isLetter (UInt16.ofNat code) || code == 0x24 || code == 0x5F
  else letterRanges.contains code

def continuesName (code : Nat) : Bool :=
  if code < 0x80 then isWord (UInt16.ofNat code) || code == 0x24
  else letterRanges.contains code || markRanges.contains code

def hexDigits? : Nat → Text → Option Nat
  | 0, _ => some 0
  | count + 1, u :: rest => do
    let value ← hexValue? u
    let others ← hexDigits? count rest
    return value * Nat.pow 16 count + others
  | _ + 1, [] => none

def bracedCode? (t : Text) : Option (Nat × Nat) :=
  let digits := t.takeWhile fun u => (hexValue? u).isSome
  let value := digits.foldl (fun value u => value * 16 + (hexValue? u).getD 0) 0
  if !digits.isEmpty && t[digits.length]? = some closeBrace && value ≤ 0x10FFFF then
    some (value, digits.length + 1)
  else none

def escapeAfter? (t : Text) : Option Nat :=
  if t.take 2 = [backslash, 0x75] then hexDigits? 4 (t.drop 2) else none

/-- The code point that an escape writes after its backslash and letter, and the units it takes: a
braced value, or four digits, or two times four that make a surrogate pair. -/
def escapedCode? (t : Text) : Option (Nat × Nat) :=
  if t.head? = some openBrace then
    (bracedCode? (t.drop 1)).map fun (code, count) => (code, count + 1)
  else do
    let high ← hexDigits? 4 t
    match escapeAfter? (t.drop 4) with
    | some low =>
      if isHighSurrogate (UInt16.ofNat high) && isLowSurrogate (UInt16.ofNat low) then
        some (pairValue (UInt16.ofNat high) (UInt16.ofNat low), 10)
      else some (high, 4)
    | none => some (high, 4)

/-- The code point that starts with a unit and the units it takes after that one: an escape, a
surrogate pair or the unit alone. A backslash that begins no escape belongs to no name. -/
def codePoint? (u : UInt16) (rest : Text) : Option (Nat × Nat) :=
  match u, rest with
  | backslash, 0x75 :: more => (escapedCode? more).map fun (code, count) => (code, count + 1)
  | backslash, _ => none
  | u, v :: _ =>
    if isHighSurrogate u && isLowSurrogate v then some (pairValue u v, 1) else some (u.toNat, 0)
  | u, [] => some (u.toNat, 0)

def nameTail? : Text → Option (Text × Nat)
  | [] => none
  | u :: rest => do
    let (code, extra) ← codePoint? u rest
    if code = 0x3E then some ([], extra + 1)
    else if continuesName code then
      let (name, more) ← nameTail? (rest.drop extra)
      some (ofCode code ++ name, extra + 1 + more)
    else none
termination_by t => t.length
decreasing_by simp only [List.length_drop, List.length_cons]; omega

def groupName? : Text → Option (Text × Nat)
  | [] => none
  | u :: rest => do
    let (code, extra) ← codePoint? u rest
    if beginsName code then
      let (name, more) ← nameTail? (rest.drop extra)
      some (ofCode code ++ name, extra + 1 + more)
    else none

end Emend.Expression
