import Emend.Expression.Basic
import Emend.Expression.Identifier

/-! The lexemes of a regular expression. Each is read from the text in front of it alone, except
that a reference needs to know how many groups the whole expression has and what they are called.

A reader tells how many units it takes after the first one, so the rest is always shorter. -/

namespace Emend.Expression

open Text

inductive Defect where
  | nothingToRepeat
  | bracesOutOfOrder
  | unterminatedGroup
  | unmatchedParen
  | invalidGroup
  | invalidGroupName
  | duplicateGroupName
  | invalidNamedReference
  | unknownGroupName
  | unterminatedClass
  | rangeOutOfOrder
  | invalidClassEscape
  | trailingBackslash
  deriving DecidableEq, Repr

def Defect.summary : Defect → Text
  | nothingToRepeat => units "Nothing to repeat"
  | bracesOutOfOrder => units "numbers out of order in \x7b\x7d quantifier"
  | unterminatedGroup => units "Unterminated group"
  | unmatchedParen => units "Unmatched ')'"
  | invalidGroup => units "Invalid group"
  | invalidGroupName => units "Invalid capture group name"
  | duplicateGroupName => units "Duplicate capture group name"
  | invalidNamedReference => units "Invalid named reference"
  | unknownGroupName => units "Invalid named capture referenced"
  | unterminatedClass => units "Unterminated character class"
  | rangeOutOfOrder => units "Range out of order in character class"
  | invalidClassEscape => units "Invalid escape"
  | trailingBackslash => units "\\ at end of pattern"

inductive Opening where
  | capture (name : Option Text)
  | plain
  | look (behind negated : Bool)
  deriving DecidableEq, Repr

inductive Lexeme where
  | opening (kind : Opening)
  | closing
  | bar
  /-- Something that takes a quantifier. -/
  | atom (node : Node)
  /-- An assertion, which takes none. -/
  | assertion (node : Node)
  | quantifier (least : Nat) (most : Option Nat) (greedy : Bool)
  deriving DecidableEq, Repr

/-- What references need to know of the whole expression: the number of its groups and, in order,
the names of those that have one. -/
structure Survey where
  groups : Nat
  names : List (Text × Nat)
  deriving Repr

/-- Names are in use, which makes `\k` a reference everywhere. -/
def Survey.named (survey : Survey) : Bool := !survey.names.isEmpty

/-- One to three octal digits with a value below 256, the first of which is given. -/
def octal (first : UInt16) (rest : Text) : Nat × Nat :=
  let isOctal (u : UInt16) : Bool := 0x30 ≤ u && u ≤ 0x37
  let value := digitValue first
  match rest with
  | second :: more =>
    if isOctal second then
      let value := value * 8 + digitValue second
      match more with
      | third :: _ =>
        if value < 32 && isOctal third then (value * 8 + digitValue third, 2) else (value, 1)
      | [] => (value, 1)
    else (value, 0)
  | [] => (value, 0)

/-- What the letter after a backslash stands for when it stands for a set. -/
def classLetter? (u : UInt16) : Option UnitSet :=
  if u = 0x64 then some .digit
  else if u = 0x44 then some (.complement .digit)
  else if u = 0x73 then some .blank
  else if u = 0x53 then some (.complement .blank)
  else if u = 0x77 then some .word
  else if u = 0x57 then some (.complement .word)
  else none

def controlLetter? (u : UInt16) : Option UInt16 :=
  if u = 0x66 then some 0x0C
  else if u = 0x6E then some 0x0A
  else if u = 0x72 then some 0x0D
  else if u = 0x74 then some 0x09
  else if u = 0x76 then some 0x0B
  else none

/-- The unit that an escape stands for, from the units after its backslash, and how many of them
it takes after the first. `\c` needs a control letter, else the backslash stands for itself and
takes nothing; a hexadecimal escape needs all its digits, else its letter stands for itself; and
so does every unit without a meaning. -/
def unitEscape (isControl : UInt16 → Bool) (u : UInt16) (rest : Text) : UInt16 × Option Nat :=
  match controlLetter? u with
  | some v => (v, some 0)
  | none =>
    if u = 0x63 then
      match rest with
      | v :: _ => if isControl v then (v &&& 0x1F, some 1) else (backslash, none)
      | [] => (backslash, none)
    else if 0x30 ≤ u && u ≤ 0x37 then
      let (value, extra) := octal u rest
      (UInt16.ofNat value, some extra)
    else if u = 0x78 then
      match hexDigits? 2 rest with
      | some value => (UInt16.ofNat value, some 2)
      | none => (u, some 0)
    else if u = 0x75 then
      match hexDigits? 4 rest with
      | some value => (UInt16.ofNat value, some 4)
      | none => (u, some 0)
    else (u, some 0)

def namedReference (survey : Survey) : Text → Except Defect (Lexeme × Nat)
  | less :: rest =>
    match groupName? rest with
    | some (name, count) =>
      match survey.names.lookup name with
      | some index => .ok (.atom (.reference index), count + 2)
      | none => .error .unknownGroupName
    | none => .error .invalidNamedReference
  | _ => .error .invalidNamedReference

def escapeLexeme (survey : Survey) (u : UInt16) (rest : Text) : Except Defect (Lexeme × Nat) :=
  let plainEscape : Except Defect (Lexeme × Nat) :=
    let (v, extra) := unitEscape isLetter u rest
    .ok (.atom (.unit (.single v)), match extra with | some extra => extra + 1 | none => 0)
  if u = 0x62 then .ok (.assertion (.wordBoundary false), 1)
  else if u = 0x42 then .ok (.assertion (.wordBoundary true), 1)
  else if 0x31 ≤ u && u ≤ 0x39 then
    let digits := u :: rest.takeWhile isDigit
    let value := decimalValue digits
    if value ≤ survey.groups then .ok (.atom (.reference value), digits.length)
    else plainEscape
  else if u = 0x6B && survey.named then namedReference survey rest
  else match classLetter? u with
    | some set => .ok (.atom (.unit set), 1)
    | none => plainEscape

/-- A member of a class: a unit, which may bound a range, or a set, which may not. -/
inductive Member where
  | unit (u : UInt16)
  | units (set : UnitSet)

def Member.toSet : Member → UnitSet
  | unit u => .single u
  | units set => set

/-- The member at the front of a class, and how many units it takes after the first. -/
def classMember (survey : Survey) (u : UInt16) (rest : Text) : Except Defect (Member × Nat) :=
  if u = backslash then
    match rest with
    | [] => .error .trailingBackslash
    | v :: more =>
      match classLetter? v with
      | some set => .ok (.units set, 1)
      | none =>
        if v = 0x62 then .ok (.unit 0x08, 1)
        else if v = 0x6B && survey.named then .error .invalidClassEscape
        else
          let (w, extra) := unitEscape isWord v more
          .ok (.unit w, match extra with | some extra => extra + 1 | none => 0)
  else .ok (.unit u, 0)

/-- What a hyphen between two members makes: a range between units, which must not be out of order,
and itself beside a set. -/
def rangeOf : Member → Member → Except Defect UnitSet
  | .unit first, .unit last =>
    if first ≤ last then .ok (.range first last) else .error .rangeOutOfOrder
  | left, right => .ok (.merge left.toSet (.merge (.single hyphen) right.toSet))

/-- The members of a class and how many units they take, the closing bracket included. A hyphen
at either end stands for itself. -/
def classMembers (survey : Survey) : Text → Except Defect (UnitSet × Nat)
  | [] => .error .unterminatedClass
  | u :: rest =>
    if u = closeBracket then .ok (.empty, 1)
    else do
      let (left, extra) ← classMember survey u rest
      match _remaining : rest.drop extra with
      | w :: v :: more =>
        if w = hyphen then
          if v = closeBracket then .ok (.merge left.toSet (.single hyphen), extra + 3)
          else
            let (right, extraRight) ← classMember survey v more
            let set ← rangeOf left right
            let (others, count) ← classMembers survey (more.drop extraRight)
            .ok (.merge set others, extra + 3 + extraRight + count)
        else
          let (others, count) ← classMembers survey (w :: v :: more)
          .ok (.merge left.toSet others, extra + 1 + count)
      | few =>
        let (others, count) ← classMembers survey few
        .ok (.merge left.toSet others, extra + 1 + count)
termination_by t => t.length
decreasing_by
  all_goals
    have size := congrArg List.length _remaining
    simp only [List.length_drop, List.length_cons] at size ⊢
    omega

def countLimit : Nat := 2147483647

def countValue (digits : Text) : Nat := min (decimalValue digits) countLimit

/-- The upper bound of an interval after the digits of its lower one, with the number of units that
closing it takes: the same bound, none, or other digits after a comma. -/
def upperBound? (least : Nat) : Text → Option (Option Nat × Nat)
  | closeBrace :: _ => some (some least, 1)
  | comma :: rest =>
    let upper := rest.takeWhile isDigit
    if (rest.drop upper.length).head? = some closeBrace then
      some (if upper.isEmpty then none else some (countValue upper), upper.length + 2)
    else none
  | _ => none

/-- The bounds of an interval after its opening brace, with the number of units they take, the
closing brace included: `n`, `n,` or `n,m` in decimal digits. Anything else is no interval. -/
def interval? (t : Text) : Option ((Nat × Option Nat) × Nat) :=
  let lower := t.takeWhile isDigit
  if lower.isEmpty then none
  else
    let least := countValue lower
    (upperBound? least (t.drop lower.length)).map fun (most, count) =>
      ((least, most), lower.length + count)

/-- A question mark right after a quantifier makes it prefer fewer runs. -/
def quantifierLexeme (least : Nat) (most : Option Nat) (rest : Text) (extra : Nat) : Lexeme × Nat :=
  match rest.drop extra with
  | question :: _ => (.quantifier least most false, extra + 1)
  | _ => (.quantifier least most true, extra)

def openingLexeme (rest : Text) : Except Defect (Lexeme × Nat) :=
  if rest.head? ≠ some question then .ok (.opening (.capture none), 0)
  else if (units "?:").isPrefixOf rest then .ok (.opening .plain, 2)
  else if (units "?=").isPrefixOf rest then .ok (.opening (.look false false), 2)
  else if (units "?!").isPrefixOf rest then .ok (.opening (.look false true), 2)
  else if (units "?<=").isPrefixOf rest then .ok (.opening (.look true false), 3)
  else if (units "?<!").isPrefixOf rest then .ok (.opening (.look true true), 3)
  else if (units "?<").isPrefixOf rest then
    match groupName? (rest.drop 2) with
    | some (name, count) => .ok (.opening (.capture (some name)), count + 2)
    | none => .error .invalidGroupName
  else .error .invalidGroup

def lexeme (survey : Survey) (u : UInt16) (rest : Text) : Except Defect (Lexeme × Nat) :=
  if u = openParen then openingLexeme rest
  else if u = closeParen then .ok (.closing, 0)
  else if u = bar then .ok (.bar, 0)
  else if u = caret then .ok (.assertion .start, 0)
  else if u = dollar then .ok (.assertion .stop, 0)
  else if u = dot then .ok (.atom (.unit (.complement .lineTerminator)), 0)
  else if u = star then .ok (quantifierLexeme 0 none rest 0)
  else if u = plus then .ok (quantifierLexeme 1 none rest 0)
  else if u = question then .ok (quantifierLexeme 0 (some 1) rest 0)
  else if u = openBrace then
    match interval? rest with
    | none => .ok (.atom (.unit (.single u)), 0)
    | some ((least, most), extra) =>
      if most.any (· < least) then .error .bracesOutOfOrder
      else .ok (quantifierLexeme least most rest extra)
  else if u = openBracket then
    match rest with
    | caret :: more => do
      let (set, count) ← classMembers survey more
      .ok (.atom (.unit (.complement set)), count + 1)
    | _ => do
      let (set, count) ← classMembers survey rest
      .ok (.atom (.unit set), count)
  else if u = backslash then
    match rest with
    | [] => .error .trailingBackslash
    | v :: more => escapeLexeme survey v more
  else .ok (.atom (.unit (.single u)), 0)

def lexemes (survey : Survey) : Text → Except Defect (List Lexeme)
  | [] => .ok []
  | u :: rest => do
    let (first, extra) ← lexeme survey u rest
    let others ← lexemes survey (rest.drop extra)
    .ok (first :: others)
termination_by t => t.length
decreasing_by simp only [List.length_drop, List.length_cons]; omega

/-- Number the groups among some lexemes and collect their names; two groups never share one. -/
def survey (pieces : List Lexeme) : Except Defect Survey :=
  pieces.foldlM (fun seen piece =>
    match piece with
    | .opening (.capture none) => .ok { seen with groups := seen.groups + 1 }
    | .opening (.capture (some name)) =>
      if (seen.names.lookup name).isSome then .error .duplicateGroupName
      else .ok ⟨seen.groups + 1, seen.names ++ [(name, seen.groups + 1)]⟩
    | _ => .ok seen) ⟨0, []⟩

end Emend.Expression
