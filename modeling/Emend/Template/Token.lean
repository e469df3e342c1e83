import Emend.Expression.Assembly

/-! Templates are literal text with holes. A hole is written `:[name]`, or `:[name~constraint]` with
a regular expression, and the name `_` makes it anonymous. A backslash makes the unit after it
literal. -/

namespace Emend.Template

open Text

structure Hole where
  name : Text
  constraint : Option Text
  deriving DecidableEq, Repr

/-- The hole named `_` captures nothing and renders as nothing. -/
def Hole.anonymous (hole : Hole) : Bool := hole.name == [underscore]

/-- The name under which nothing is ever kept, whatever a hole of that name has matched. -/
def reservedName : Text := units "__proto__"

/-- What a hole of the reserved name renders as when nothing is known of it. -/
def reservedValue : Text := units "[object Object]"

inductive Token where
  | literal (value : Text)
  | hole (hole : Hole)
  deriving DecidableEq, Repr

namespace Token

def isLiteral : Token → Bool
  | literal _ => true
  | hole _ => false

def captureName? : Token → Option Text
  | literal _ => none
  | hole place => if place.anonymous then none else some place.name

end Token

inductive Defect where
  | blank
  | malformedHole (offset : Nat) (excerpt : Text)
  | longConstraint (hole : Text)
  | badConstraint (hole : Text) (reason : Expression.Defect)
  | noLiteral (source : Text)
  | badExpression (reason : Expression.Defect)
  deriving DecidableEq, Repr

def constraintLimit : Nat := 256

def excerptLength : Nat := 24

def Defect.message (reading : Expression.Defect → Text) : Defect → Text
  | blank => units "Template cannot be empty."
  | malformedHole offset excerpt =>
    units "Invalid hole syntax at offset " ++ ofNat offset ++ units ": \"" ++ excerpt ++
      units "\". Hint: use :[name], :[_] or :[name~regex]; escape a literal ':[' as '\\:['."
  | longConstraint hole =>
    units "Regex constraint for hole \"" ++ hole ++ units "\" exceeds " ++ ofNat constraintLimit ++
      units " characters."
  | badConstraint hole reason =>
    units "Invalid regex constraint for hole \"" ++ hole ++ units "\": " ++ reading reason
  | noLiteral source => units "Pattern must contain literal text: " ++ source
  | badExpression reason => units "Invalid regular expression: " ++ reading reason

def startsName (u : UInt16) : Bool := isLetter u || u == underscore

/-- The length of a class after its opening bracket, the bracket that closes it included. An
escaped bracket does not close it. -/
def classLength? : Text → Option Nat
  | [] => none
  | u :: rest =>
    if u = closeBracket then some 1
    else if u = backslash then
      match rest with
      | [] => none
      | _ :: more => (classLength? more).map (· + 2)
    else (classLength? rest).map (· + 1)

/-- The length of a constraint, up to the bracket that closes its hole. Brackets that are escaped
or belong to a class do not close it. -/
def constraintLength? : Text → Option Nat
  | [] => none
  | u :: rest =>
    if u = closeBracket then some 0
    else if u = backslash then
      match rest with
      | [] => none
      | _ :: more => (constraintLength? more).map (· + 2)
    else if u = openBracket then
      match classLength? rest with
      | none => none
      | some inside => (constraintLength? (rest.drop inside)).map (· + (inside + 1))
    else (constraintLength? rest).map (· + 1)
termination_by t => t.length
decreasing_by all_goals simp only [List.length_drop, List.length_cons]; omega

/-- The hole whose opening `:[` has just been read, and the number of units it takes after that.
A constraint has at least one unit. -/
def hole? (t : Text) : Option (Hole × Nat) :=
  let name := t.takeWhile isWord
  if name.head?.any startsName then
    match t.drop name.length with
    | [] => none
    | u :: rest =>
      if u = closeBracket then some (⟨name, none⟩, name.length + 1)
      else if u = tilde then
        match constraintLength? rest with
        | none | some 0 => none
        | some (length + 1) => some (⟨name, some (rest.take (length + 1))⟩, name.length + length + 3)
      else none
  else none

/-- A constraint is short enough and is a regular expression on its own. -/
def Hole.check (hole : Hole) : Except Defect Unit :=
  match hole.constraint with
  | none => .ok ()
  | some constraint =>
    if constraintLimit < constraint.length then .error (.longConstraint hole.name)
    else match Expression.parse constraint with
      | .ok _ => .ok ()
      | .error reason => .error (.badConstraint hole.name reason)

def prepend (u : UInt16) : List Token → List Token
  | .literal value :: rest => .literal (u :: value) :: rest
  | tokens => .literal [u] :: tokens

/-- The tokens of a text that starts at an offset of its template. A backslash at the very end is
literal. -/
def tokensFrom (offset : Nat) : Text → Except Defect (List Token)
  | [] => .ok []
  | u :: rest =>
    if u = backslash then
      match rest with
      | [] => .ok [.literal [u]]
      | v :: more => do return prepend v (← tokensFrom (offset + 2) more)
    else if u = colon && rest.head? = some openBracket then
      match hole? (rest.drop 1) with
      | none => .error (.malformedHole offset ((u :: rest).take excerptLength))
      | some (hole, count) => do
        hole.check
        return .hole hole :: (← tokensFrom (offset + 2 + count) (rest.drop (1 + count)))
    else do return prepend u (← tokensFrom (offset + 1) rest)
termination_by t => t.length
decreasing_by all_goals simp only [List.length_drop, List.length_cons]; omega

def tokens (source : Text) : Except Defect (List Token) := tokensFrom 0 source

end Emend.Template
