import Emend.Encoding.Radix
import Emend.Text.Case

/-! Text encodings. Files are decoded only when the text encodes back to the same bytes, and text
is encoded only when the bytes decode back to the same text. -/

namespace Emend

open Text

/-- How bytes and texts correspond. -/
inductive Encoding where
  | utf8
  | utf16
  | latin1
  | ascii
  | hex
  | base64
  | base64Url
  deriving DecidableEq, Repr

namespace Encoding

def named? (name : Text) : Option Encoding :=
  let lower := toLower name
  if lower = units "utf8" || lower = units "utf-8" then some utf8
  else if lower = units "ucs2" || lower = units "ucs-2" || lower = units "utf16le" ||
    lower = units "utf-16le" then some utf16
  else if lower = units "latin1" || lower = units "binary" then some latin1
  else if lower = units "ascii" then some ascii
  else if lower = units "hex" then some hex
  else if lower = units "base64" then some base64
  else if lower = units "base64url" then some base64Url
  else none

/-- The units of pairs of bytes, the low byte first. An odd byte at the end is dropped. -/
def readPairs : Bytes → Text
  | low :: high :: rest => UInt16.ofNat (high.toNat * 256 + low.toNat) :: readPairs rest
  | _ => []

/-- The text of some bytes. No bytes fail; what cannot be represented is lost. -/
def decode : Encoding → Bytes → Text
  | utf8, bytes => Utf8.decode bytes
  | utf16, bytes => readPairs bytes
  | latin1, bytes => bytes.map fun b => UInt16.ofNat b.toNat
  | ascii, bytes => bytes.map fun b => UInt16.ofNat (b.toNat % 128)
  | hex, bytes => Hex.spell bytes
  | base64, bytes => Base64.spell false bytes
  | base64Url, bytes => Base64.spell true bytes

/-- The bytes of a text. No text fails; what cannot be represented is lost. -/
def encode : Encoding → Text → Bytes
  | utf8, t => Utf8.encode t
  | utf16, t => t.flatMap fun u => [UInt8.ofNat (u.toNat % 256), UInt8.ofNat (u.toNat / 256)]
  | latin1, t => t.map fun u => UInt8.ofNat (u.toNat % 256)
  | ascii, t => t.map fun u => UInt8.ofNat (u.toNat % 256)
  | hex, t => Hex.read t
  | base64, t => Base64.read t
  | base64Url, t => Base64.read t

/-- The length of a spelling in base 64 without its padding: at most two equals signs at its end. -/
def unpaddedLength (t : Text) : Nat :=
  t.length - min 2 (t.reverse.takeWhile (· == equal)).length

/-- The number of bytes a text is reckoned at. For the spellings of bytes it follows from the
length alone, whatever the units are. -/
def byteLength : Encoding → Text → Nat
  | utf8, t => (Utf8.encode t).length
  | utf16, t => 2 * t.length
  | latin1, t => t.length
  | ascii, t => t.length
  | hex, t => t.length / 2
  | base64, t => unpaddedLength t * 3 / 4
  | base64Url, t => unpaddedLength t * 3 / 4

end Encoding

inductive CodingError where
  | unknownEncoding (name : Text)
  | notUtf8 (file : Text)
  | lossy (file name : Text)
  | unencodable (file name : Text)
  deriving DecidableEq, Repr

def CodingError.message : CodingError → Text
  | unknownEncoding name => units "Unknown encoding: " ++ name
  | notUtf8 file =>
    units "Cannot decode " ++ file ++
      units " as utf8: The encoded data was not valid for encoding utf-8."
  | lossy file name => units "Cannot decode " ++ file ++ units " as " ++ name ++ units " without loss."
  | unencodable file name =>
    units "Rewritten text for " ++ file ++ units " cannot be encoded as " ++ name ++ units "."

/-- These two spellings of the name ask for strict decoding. -/
def isStrictName (name : Text) : Bool := name == units "utf8" || name == units "utf-8"

/-- The text of some bytes under a named encoding. No bytes at all decode under any name. -/
def decodeNamed (name : Text) (bytes : Bytes) : Except CodingError Text :=
  if bytes.isEmpty then .ok []
  else match Encoding.named? name with
    | some encoding => .ok (encoding.decode bytes)
    | none => .error (.unknownEncoding name)

/-- The bytes of a text under a named encoding. The empty name stands for UTF-8. -/
def encodeNamed (name : Text) (t : Text) : Except CodingError Bytes :=
  if name.isEmpty then .ok (Utf8.encode t)
  else match Encoding.named? name with
    | some encoding => .ok (encoding.encode t)
    | none => .error (.unknownEncoding name)

def byteLengthNamed (name : Text) (t : Text) : Nat :=
  ((Encoding.named? name).getD .utf8).byteLength t

/-- The text of a file's bytes, when it encodes back to exactly these bytes. -/
def decodeLosslessly (bytes : Bytes) (name file : Text) : Except CodingError Text :=
  if isStrictName name then
    match Utf8.decodeStrict? bytes with
    | some t => .ok t
    | none => .error (.notUtf8 file)
  else do
    let t ← decodeNamed name bytes
    let back ← encodeNamed name t
    if back = bytes then .ok t else .error (.lossy file name)

/-- The bytes of a text for a file, when they decode back to exactly this text. -/
def encodeLosslessly (t : Text) (name file : Text) : Except CodingError Bytes := do
  let bytes ← encodeNamed name t
  let back ← decodeNamed name bytes
  if back = t then .ok bytes else .error (.unencodable file name)

end Emend
