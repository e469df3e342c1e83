import Emend.Json.Basic

/-! Reading JSON. Every reader gives back the text after what it has read; the fuel of the nested
readers is twice the length of the whole text, as no two nested calls read nothing. -/

namespace Emend.Json

open Text

inductive Defect where
  | endOfText
  | unexpected (u : UInt16)
  deriving DecidableEq, Repr

def Defect.summary : Defect → Text
  | endOfText => units "Unexpected end of JSON input"
  | unexpected u => units "Unexpected token '" ++ [u] ++ units "'"

def defectAt : Text → Defect
  | [] => .endOfText
  | u :: _ => .unexpected u

def isJsonBlank (u : UInt16) : Bool :=
  u == space || u == tab || u == lineFeed || u == carriageReturn

def skipBlanks (t : Text) : Text := t.dropWhile isJsonBlank

def escapeLetter? (u : UInt16) : Option UInt16 :=
  if u = quote || u = backslash || u = slash then some u
  else if u = 0x62 then some 0x08
  else if u = 0x66 then some 0x0C
  else if u = 0x6E then some 0x0A
  else if u = 0x72 then some 0x0D
  else if u = 0x74 then some 0x09
  else none

def hexUnit? (a b c d : UInt16) : Option UInt16 := do
  return UInt16.ofNat
    ((((← hexValue? a) * 16 + (← hexValue? b)) * 16 + (← hexValue? c)) * 16 + (← hexValue? d))

def readString : Text → Except Defect (Text × Text)
  | [] => .error .endOfText
  | u :: rest =>
    if u = quote then .ok ([], rest)
    else if u < 0x20 then .error (.unexpected u)
    else if u = backslash then
      match rest with
      | [] => .error .endOfText
      | v :: more =>
        match escapeLetter? v with
        | some w => do
          let (value, after) ← readString more
          .ok (w :: value, after)
        | none =>
          if v = 0x75 then
            match more with
            | a :: b :: c :: d :: after =>
              match hexUnit? a b c d with
              | some w => do
                let (value, after) ← readString after
                .ok (w :: value, after)
              | none => .error (.unexpected v)
            | _ => .error .endOfText
          else .error (.unexpected v)
    else do
      let (value, after) ← readString rest
      .ok (u :: value, after)

def readDigits (t : Text) : Except Defect (Text × Text) :=
  let digits := t.takeWhile isDigit
  if digits.isEmpty then .error (defectAt t) else .ok (digits, t.drop digits.length)

def readWhole (t : Text) : Except Defect (Text × Text) :=
  match t with
  | zero :: rest => .ok ([zero], rest)
  | _ => readDigits t

def readFraction (t : Text) : Except Defect (Text × Text) :=
  match t with
  | dot :: rest => readDigits rest
  | _ => .ok ([], t)

def readExponent (t : Text) : Except Defect (Int × Text) :=
  match t with
  | u :: rest =>
    if u = 0x65 || u = 0x45 then
      match rest with
      | hyphen :: more => do
        let (digits, after) ← readDigits more
        .ok (-(decimalValue digits : Int), after)
      | plus :: more => do
        let (digits, after) ← readDigits more
        .ok (decimalValue digits, after)
      | _ => do
        let (digits, after) ← readDigits rest
        .ok (decimalValue digits, after)
    else .ok (0, t)
  | [] => .ok (0, t)

def readNumber (t : Text) : Except Defect (Binary64 × Text) := do
  let (negative, t) := match t with
    | hyphen :: rest => (true, rest)
    | _ => (false, t)
  let (whole, t) ← readWhole t
  let (fraction, t) ← readFraction t
  let (exponent, t) ← readExponent t
  .ok (.ofDecimal negative (decimalValue (whole ++ fraction)) (exponent - fraction.length), t)

def readWord (word : Text) (value : Json) (t : Text) : Except Defect (Json × Text) :=
  if word.isPrefixOf t then .ok (value, t.drop word.length) else .error (defectAt t)

mutual

def readValue : Nat → Text → Except Defect (Json × Text)
  | 0, t => .error (defectAt t)
  | fuel + 1, t =>
    match skipBlanks t with
    | [] => .error .endOfText
    | u :: rest =>
      if u = quote then do
        let (value, after) ← readString rest
        .ok (.string value, after)
      else if u = openBracket then
        match skipBlanks rest with
        | closeBracket :: after => .ok (.array [], after)
        | _ => do
          let (items, after) ← readItems fuel rest
          .ok (.array items, after)
      else if u = openBrace then
        match skipBlanks rest with
        | closeBrace :: after => .ok (.object [], after)
        | _ => do
          let (members, after) ← readMembers fuel rest []
          .ok (.object members, after)
      else if u = 0x74 then readWord (units "true") (.boolean true) (u :: rest)
      else if u = 0x66 then readWord (units "false") (.boolean false) (u :: rest)
      else if u = 0x6E then readWord (units "null") .null (u :: rest)
      else do
        let (value, after) ← readNumber (u :: rest)
        .ok (.number value, after)

def readItems : Nat → Text → Except Defect (List Json × Text)
  | 0, t => .error (defectAt t)
  | fuel + 1, t => do
    let (item, after) ← readValue fuel t
    match skipBlanks after with
    | comma :: rest =>
      let (items, after) ← readItems fuel rest
      .ok (item :: items, after)
    | closeBracket :: rest => .ok ([item], rest)
    | other => .error (defectAt other)

def readMembers : Nat → Text → List (Text × Json) → Except Defect (List (Text × Json) × Text)
  | 0, t, _ => .error (defectAt t)
  | fuel + 1, t, seen =>
    match skipBlanks t with
    | quote :: rest => do
      let (name, after) ← readString rest
      match skipBlanks after with
      | colon :: rest =>
        let (value, after) ← readValue fuel rest
        let seen := putMember name value seen
        match skipBlanks after with
        | comma :: rest => readMembers fuel rest seen
        | closeBrace :: rest => .ok (seen, rest)
        | other => .error (defectAt other)
      | other => .error (defectAt other)
    | other => .error (defectAt other)

end

/-- The value that a text writes, with nothing but blanks around it. -/
def parse (t : Text) : Except Defect Json := do
  let (value, after) ← readValue (2 * t.length + 2) t
  match skipBlanks after with
  | [] => .ok value
  | other => .error (defectAt other)

end Emend.Json
