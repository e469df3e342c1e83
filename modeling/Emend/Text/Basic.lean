/-! A text is a list of sixteen-bit code units. Every offset, length, width and comparison of this
library counts these units, so a character outside the basic plane has length two and may be cut
in half. -/

namespace Emend

/-- A sequence of UTF-16 code units. Surrogates need not be paired. -/
abbrev Text := List UInt16

namespace Text

/-- The units of a code point: a surrogate pair from `0x10000` on, the code point itself below. -/
def ofCode (code : Nat) : Text :=
  if code < 0x10000 then [UInt16.ofNat code]
  else
    [UInt16.ofNat (0xD800 + (code - 0x10000) / 0x400), UInt16.ofNat (0xDC00 + (code - 0x10000) % 0x400)]

def ofChar (c : Char) : Text := ofCode c.val.toNat

end Text

def units (s : String) : Text := s.toList.flatMap Text.ofChar

namespace Text

@[match_pattern] abbrev tab : UInt16 := 0x09
@[match_pattern] abbrev lineFeed : UInt16 := 0x0A
@[match_pattern] abbrev carriageReturn : UInt16 := 0x0D
@[match_pattern] abbrev escape : UInt16 := 0x1B
@[match_pattern] abbrev space : UInt16 := 0x20
@[match_pattern] abbrev quote : UInt16 := 0x22
@[match_pattern] abbrev dollar : UInt16 := 0x24
@[match_pattern] abbrev openParen : UInt16 := 0x28
@[match_pattern] abbrev closeParen : UInt16 := 0x29
@[match_pattern] abbrev star : UInt16 := 0x2A
@[match_pattern] abbrev plus : UInt16 := 0x2B
@[match_pattern] abbrev comma : UInt16 := 0x2C
@[match_pattern] abbrev hyphen : UInt16 := 0x2D
@[match_pattern] abbrev dot : UInt16 := 0x2E
@[match_pattern] abbrev slash : UInt16 := 0x2F
@[match_pattern] abbrev zero : UInt16 := 0x30
@[match_pattern] abbrev colon : UInt16 := 0x3A
@[match_pattern] abbrev less : UInt16 := 0x3C
@[match_pattern] abbrev equal : UInt16 := 0x3D
@[match_pattern] abbrev greater : UInt16 := 0x3E
@[match_pattern] abbrev question : UInt16 := 0x3F
@[match_pattern] abbrev openBracket : UInt16 := 0x5B
@[match_pattern] abbrev backslash : UInt16 := 0x5C
@[match_pattern] abbrev closeBracket : UInt16 := 0x5D
@[match_pattern] abbrev caret : UInt16 := 0x5E
@[match_pattern] abbrev underscore : UInt16 := 0x5F
@[match_pattern] abbrev openBrace : UInt16 := 0x7B
@[match_pattern] abbrev bar : UInt16 := 0x7C
@[match_pattern] abbrev closeBrace : UInt16 := 0x7D
@[match_pattern] abbrev tilde : UInt16 := 0x7E

def isLineTerminator (u : UInt16) : Bool :=
  u == lineFeed || u == carriageReturn || u == 0x2028 || u == 0x2029

/-- White space, line terminators and the byte order mark included. The next-line control `0x85`
and the zero width space `0x200B` are not blank. -/
def isBlank (u : UInt16) : Bool :=
  (0x09 ≤ u && u ≤ 0x0D) || u == 0x20 || u == 0xA0 || u == 0x1680 || (0x2000 ≤ u && u ≤ 0x200A) ||
    u == 0x2028 || u == 0x2029 || u == 0x202F || u == 0x205F || u == 0x3000 || u == 0xFEFF

def isDigit (u : UInt16) : Bool := 0x30 ≤ u && u ≤ 0x39

def isLower (u : UInt16) : Bool := 0x61 ≤ u && u ≤ 0x7A

def isUpper (u : UInt16) : Bool := 0x41 ≤ u && u ≤ 0x5A

def isLetter (u : UInt16) : Bool := isLower u || isUpper u

def isWord (u : UInt16) : Bool := isLetter u || isDigit u || u == underscore

def isHighSurrogate (u : UInt16) : Bool := 0xD800 ≤ u && u ≤ 0xDBFF

def isLowSurrogate (u : UInt16) : Bool := 0xDC00 ≤ u && u ≤ 0xDFFF

def hexValue? (u : UInt16) : Option Nat :=
  if isDigit u then some (u.toNat - 0x30)
  else if 0x61 ≤ u && u ≤ 0x66 then some (u.toNat - 0x61 + 10)
  else if 0x41 ≤ u && u ≤ 0x46 then some (u.toNat - 0x41 + 10)
  else none

def digitValue (u : UInt16) : Nat := u.toNat - 0x30

def decimalValue (digits : Text) : Nat :=
  digits.foldl (fun value u => value * 10 + digitValue u) 0

def ofNat (n : Nat) : Text := (Nat.toDigits 10 n).flatMap ofChar

def trimStart (t : Text) : Text := t.dropWhile isBlank

def trimEnd (t : Text) : Text := (t.reverse.dropWhile isBlank).reverse

def trim (t : Text) : Text := trimEnd (trimStart t)

/-- Some occurrence of the key starts in the text. The empty key occurs everywhere. -/
def occursIn (key : Text) : Text → Bool
  | [] => key.isEmpty
  | u :: rest => key.isPrefixOf (u :: rest) || occursIn key rest

/-- Cut at every unit equal to the separator, which the pieces do not keep: `n` separators give
`n + 1` pieces. -/
def split (separator : UInt16) (t : Text) : List Text :=
  t.foldr (fun u pieces =>
    if u = separator then [] :: pieces
    else match pieces with
      | [] => [[u]]
      | piece :: others => (u :: piece) :: others) [[]]

def join (separator : Text) (pieces : List Text) : Text := separator.intercalate pieces

def slice (t : Text) (start stop : Nat) : Text := (t.drop start).take (stop - start)

def padEnd (width : Nat) (t : Text) : Text := t ++ List.replicate (width - t.length) space

/-- Code-unit order: the first difference decides and a proper start comes first. -/
def before (left right : Text) : Bool := decide (left < right)

def sort (texts : List Text) : List Text := texts.mergeSort (fun a b => !before b a)

def pairValue (high low : UInt16) : Nat :=
  0x10000 + (high.toNat - 0xD800) * 0x400 + (low.toNat - 0xDC00)

/-- Put a unit in front of some code points. A high surrogate takes in the low one after it. -/
def codeStep (u : UInt16) : List Nat → List Nat
  | [] => [u.toNat]
  | code :: rest =>
    if isHighSurrogate u && code < 0x10000 && isLowSurrogate (UInt16.ofNat code) then
      pairValue u (UInt16.ofNat code) :: rest
    else u.toNat :: code :: rest

/-- The code points of a text. A surrogate outside a pair is a code point of its own. -/
def codes (t : Text) : List Nat := t.foldr codeStep []

def ofCodes (codes : List Nat) : Text := codes.flatMap ofCode

def isSurrogate (code : Nat) : Bool := 0xD800 ≤ code && code ≤ 0xDFFF

def replacementCode : Nat := 0xFFFD

/-- A text with the replacement character for each surrogate outside a pair. -/
def repair (t : Text) : Text :=
  ofCodes ((codes t).map fun code => if isSurrogate code then replacementCode else code)

def asString (t : Text) : String :=
  String.ofList ((codes t).map fun code =>
    Char.ofNat (if isSurrogate code then replacementCode else code))

/-- Surrogates stand in pairs only, the high one first. -/
def wellFormed (t : Text) : Bool := !(codes t).any isSurrogate

end Text

end Emend
