import Emend.Text.Basic

/-! Texts as messages quote them: between quotation marks that they need not hold themselves, with
everything escaped that would not show, and cut where they get long. -/

namespace Emend.Text

@[match_pattern] abbrev apostrophe : UInt16 := 0x27
@[match_pattern] abbrev backtick : UInt16 := 0x60

/-- The mark to put around a text: the first of the apostrophe, the double quotation mark and the
backtick that it holds none of. A backtick will not do where a hole of a template opens, and when
no mark will do it is the apostrophe. -/
def quotationMark (t : Text) : UInt16 :=
  if !t.contains apostrophe then apostrophe
  else if !t.contains quote then quote
  else if !t.contains backtick && !occursIn [dollar, openBrace] t then backtick
  else apostrophe

def upperDigit (n : Nat) : UInt16 := UInt16.ofNat (if n < 10 then 0x30 + n else 0x41 + (n - 10))

/-- A code point between some marks. Of these only the apostrophe has to be escaped, since a text
between other marks holds none of them. -/
def quoteCode (mark : UInt16) (code : Nat) : Text :=
  if code = 0x27 then if mark = apostrophe then [backslash, apostrophe] else [apostrophe]
  else if code = 0x5C then [backslash, backslash]
  else if code = 0x08 then units "\\b"
  else if code = 0x09 then units "\\t"
  else if code = 0x0A then units "\\n"
  else if code = 0x0C then units "\\f"
  else if code = 0x0D then units "\\r"
  else if code < 0x20 || (0x7F ≤ code && code < 0xA0) then
    units "\\x" ++ [upperDigit (code / 16), upperDigit (code % 16)]
  else if isSurrogate code then units "\\u" ++ units (String.ofList (Nat.toDigits 16 code))
  else ofCode code

def marked (t : Text) : Text :=
  let mark := quotationMark t
  [mark] ++ (codes t).flatMap (quoteCode mark) ++ [mark]

def lines : Text → List Text
  | [] => []
  | u :: rest =>
    if u = lineFeed then [u] :: lines rest
    else match lines rest with
      | [] => [[u]]
      | first :: others => (u :: first) :: others

/-- A text longer than this is quoted line by line. -/
def quotedWidth : Nat := 124

/-- No quotation is longer than this, but for the dots that say so. -/
def quotationLimit : Nat := 128

def quotation (t : Text) : Text :=
  let whole :=
    if quotedWidth < t.length then join (units " +\n  ") ((lines t).map marked) else marked t
  if quotationLimit < whole.length then whole.take quotationLimit ++ units "..." else whole

end Emend.Text
