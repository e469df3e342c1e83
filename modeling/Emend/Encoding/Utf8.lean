import Emend.Text.Basic

/-! UTF-8. One scan cuts bytes into code points and stretches that encode none; strict decoding
accepts no such stretch, lenient decoding puts the replacement character for each. -/

namespace Emend

abbrev Bytes := List UInt8

namespace Utf8

open Text

/-- A byte after the first of a sequence, within bounds that the first one may have narrowed. -/
def isWithin (low high b : UInt8) : Bool := low ≤ b && b ≤ high

/-- Read the bytes that a sequence still needs: the code point, or nothing when one of them is
missing, and how many were read. The bounds hold for the next byte only. -/
def readTail : (needed : Nat) → (low high : UInt8) → (code : Nat) → Bytes → Option Nat × Nat
  | 0, _, _, code, _ => (some code, 0)
  | _ + 1, _, _, _, [] => (none, 0)
  | needed + 1, low, high, code, b :: rest =>
    if isWithin low high b then
      let (read, count) := readTail needed 0x80 0xBF (code * 64 + (b.toNat - 0x80)) rest
      (read, count + 1)
    else (none, 0)

/-- The sequence that starts with a byte: its code point, or nothing when the bytes encode none,
and how many bytes belong to it after the first. Overlong forms, surrogates and what lies beyond
the last code point are ruled out by the bounds on the second byte. -/
def readSequence (b : UInt8) (rest : Bytes) : Option Nat × Nat :=
  if b < 0x80 then (some b.toNat, 0)
  else if b < 0xC2 then (none, 0)
  else if b < 0xE0 then readTail 1 0x80 0xBF (b.toNat - 0xC0) rest
  else if b < 0xF0 then
    readTail 2 (if b = 0xE0 then 0xA0 else 0x80) (if b = 0xED then 0x9F else 0xBF) (b.toNat - 0xE0) rest
  else if b < 0xF5 then
    readTail 3 (if b = 0xF0 then 0x90 else 0x80) (if b = 0xF4 then 0x8F else 0xBF) (b.toNat - 0xF0) rest
  else (none, 0)

/-- Cut bytes into sequences, put in reverse before those that were read already. -/
def scanOnto (read : List (Option Nat)) : Bytes → List (Option Nat)
  | [] => read
  | b :: rest =>
    let (code, count) := readSequence b rest
    scanOnto (code :: read) (rest.drop count)
termination_by bytes => bytes.length
decreasing_by simp only [List.length_drop, List.length_cons]; omega

def scan (bytes : Bytes) : List (Option Nat) := (scanOnto [] bytes).reverse

/-- The text of bytes that are UTF-8 throughout. A byte order mark is kept. -/
def decodeStrict? (bytes : Bytes) : Option Text :=
  let codes := scan bytes
  if codes.all Option.isSome then some (ofCodes (codes.filterMap id)) else none

def decode (bytes : Bytes) : Text :=
  ofCodes ((scan bytes).map fun code => code.getD replacementCode)

def encodeCode (code : Nat) : Bytes :=
  if code < 0x80 then [UInt8.ofNat code]
  else if code < 0x800 then [UInt8.ofNat (0xC0 + code / 64), UInt8.ofNat (0x80 + code % 64)]
  else if code < 0x10000 then
    [UInt8.ofNat (0xE0 + code / 4096), UInt8.ofNat (0x80 + code / 64 % 64), UInt8.ofNat (0x80 + code % 64)]
  else
    [UInt8.ofNat (0xF0 + code / 262144), UInt8.ofNat (0x80 + code / 4096 % 64),
      UInt8.ofNat (0x80 + code / 64 % 64), UInt8.ofNat (0x80 + code % 64)]

/-- The bytes of a text, with those of the replacement character for a surrogate outside a pair. -/
def encode (t : Text) : Bytes :=
  (codes t).flatMap fun code => encodeCode (if isSurrogate code then replacementCode else code)

end Utf8

end Emend
