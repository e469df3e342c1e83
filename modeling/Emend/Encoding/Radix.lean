import Emend.Encoding.Utf8
import Emend.Json.Printer

/-! Bytes spelled in hexadecimal digits and in base 64. Here the bytes are what is spelled and the
text is its spelling. -/

namespace Emend

open Text

namespace Hex

def spell (bytes : Bytes) : Text :=
  bytes.flatMap fun b => [Json.hexDigit (b.toNat / 16), Json.hexDigit (b.toNat % 16)]

def read : Text → Bytes
  | u :: v :: rest =>
    match hexValue? u, hexValue? v with
    | some high, some low => UInt8.ofNat (high * 16 + low) :: read rest
    | _, _ => []
  | _ => []

end Hex

namespace Base64

/-- The digit for a value below 64. The last two digits depend on the alphabet. -/
def digit (url : Bool) (value : Nat) : UInt16 :=
  if value < 26 then UInt16.ofNat (0x41 + value)
  else if value < 52 then UInt16.ofNat (0x61 + (value - 26))
  else if value < 62 then UInt16.ofNat (0x30 + (value - 52))
  else if value = 62 then if url then hyphen else plus
  else if url then underscore else slash

def value? (u : UInt16) : Option Nat :=
  if isUpper u then some (u.toNat - 0x41)
  else if isLower u then some (u.toNat - 0x61 + 26)
  else if isDigit u then some (u.toNat - 0x30 + 52)
  else if u = plus || u = hyphen then some 62
  else if u = slash || u = underscore then some 63
  else none

/-- Padding, which only the standard alphabet has. -/
def padding (url : Bool) (count : Nat) : Text := if url then [] else List.replicate count equal

/-- Four digits for each three bytes; a last group of one or two bytes has two or three. -/
def spell (url : Bool) : Bytes → Text
  | [] => []
  | [a] => [digit url (a.toNat / 4), digit url (a.toNat % 4 * 16)] ++ padding url 2
  | [a, b] =>
    [digit url (a.toNat / 4), digit url (a.toNat % 4 * 16 + b.toNat / 16),
      digit url (b.toNat % 16 * 4)] ++ padding url 1
  | a :: b :: c :: rest =>
    [digit url (a.toNat / 4), digit url (a.toNat % 4 * 16 + b.toNat / 16),
      digit url (b.toNat % 16 * 4 + c.toNat / 64), digit url (c.toNat % 64)] ++ spell url rest

def readValues : List Nat → Bytes
  | a :: b :: c :: d :: rest =>
    UInt8.ofNat (a * 4 + b / 16) :: UInt8.ofNat (b % 16 * 16 + c / 4) :: UInt8.ofNat (c % 4 * 64 + d) ::
      readValues rest
  | [a, b, c] => [UInt8.ofNat (a * 4 + b / 16), UInt8.ofNat (b % 16 * 16 + c / 4)]
  | [a, b] => [UInt8.ofNat (a * 4 + b / 16)]
  | _ => []

/-- The bytes that a text spells in either alphabet. What is no digit is passed over. -/
def read (t : Text) : Bytes := readValues (t.filterMap value?)

end Base64

end Emend
