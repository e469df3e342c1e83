import Emend.Json.Basic

/-! Writing JSON, on one line or indented by two spaces. -/

namespace Emend.Json

open Text

def hexDigit (n : Nat) : UInt16 := UInt16.ofNat (if n < 10 then 0x30 + n else 0x61 + (n - 10))

def hexUnit (u : UInt16) : Text :=
  let n := u.toNat
  [hexDigit (n / 4096), hexDigit (n / 256 % 16), hexDigit (n / 16 % 16), hexDigit (n % 16)]

def quoteUnit (u : UInt16) : Text :=
  if u = quote then units "\\\""
  else if u = backslash then units "\\\\"
  else if u = 0x08 then units "\\b"
  else if u = 0x0C then units "\\f"
  else if u = lineFeed then units "\\n"
  else if u = carriageReturn then units "\\r"
  else if u = tab then units "\\t"
  else if u < 0x20 then units "\\u" ++ hexUnit u
  else [u]

/-- The inside of a string. Surrogates outside a pair are escaped. -/
def quoteUnits : Text → Text
  | [] => []
  | [u] => if isHighSurrogate u || isLowSurrogate u then units "\\u" ++ hexUnit u else quoteUnit u
  | u :: v :: rest =>
    if isHighSurrogate u && isLowSurrogate v then u :: v :: quoteUnits rest
    else if isHighSurrogate u || isLowSurrogate u then
      units "\\u" ++ hexUnit u ++ quoteUnits (v :: rest)
    else quoteUnit u ++ quoteUnits (v :: rest)

def quoted (t : Text) : Text := [quote] ++ quoteUnits t ++ [quote]

/-- A number. NaN and the infinities have no numeral and are written as null. -/
def numeral (number : Binary64) : Text :=
  if number.isFinite then number.toText else units "null"

/-- A line end followed by the indentation of a depth, or nothing when all is on one line. -/
def lineBreak (indented : Bool) (depth : Nat) : Text :=
  if indented then lineFeed :: List.replicate (2 * depth) space else []

mutual

def render (indented : Bool) (depth : Nat) : Json → Text
  | .null => units "null"
  | .boolean value => if value then units "true" else units "false"
  | .number value => numeral value
  | .string value => quoted value
  | .array [] => units "[]"
  | .array (item :: items) =>
    units "[" ++ lineBreak indented (depth + 1) ++ render indented (depth + 1) item ++
      renderItems indented (depth + 1) items ++ lineBreak indented depth ++ units "]"
  | .object [] => units "\x7b\x7d"
  | .object ((name, value) :: members) =>
    units "\x7b" ++ lineBreak indented (depth + 1) ++ quoted name ++ renderColon indented ++
      render indented (depth + 1) value ++ renderMembers indented (depth + 1) members ++
      lineBreak indented depth ++ units "\x7d"

def renderItems (indented : Bool) (depth : Nat) : List Json → Text
  | [] => []
  | item :: items =>
    units "," ++ lineBreak indented depth ++ render indented depth item ++
      renderItems indented depth items

def renderMembers (indented : Bool) (depth : Nat) : List (Text × Json) → Text
  | [] => []
  | (name, value) :: members =>
    units "," ++ lineBreak indented depth ++ quoted name ++ renderColon indented ++
      render indented depth value ++ renderMembers indented depth members

def renderColon (indented : Bool) : Text := if indented then units ": " else units ":"

end

def compact (value : Json) : Text := render false 0 value

def pretty (value : Json) : Text := render true 0 value

end Emend.Json
