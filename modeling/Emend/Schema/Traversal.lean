import Emend.Schema

/-! A validation library by traversal: a schema is the check that it makes. All issues are found, depth first and in the
order of the declared members. -/

namespace Emend.Schema

open Text

inductive Complaint where
  | required
  | expected (wanted found : Text)
  | tooShort (least : Nat)
  | tooLong (most : Nat)
  | tooFew (least : Nat)
  | tooMany (most : Nat)

def Complaint.message : Complaint → Text
  | required => units "Required"
  | expected wanted found => units "Expected " ++ wanted ++ units ", received " ++ found
  | tooShort least => units "String must contain at least " ++ ofNat least ++ units " character(s)"
  | tooLong most => units "String must contain at most " ++ ofNat most ++ units " character(s)"
  | tooFew least => units "Array must contain at least " ++ ofNat least ++ units " element(s)"
  | tooMany most => units "Array must contain at most " ++ ofNat most ++ units " element(s)"

def both {α β : Type} : Checked α → Checked β → Checked (α × β)
  | .ok first, .ok second => .ok (first, second)
  | .error issues, .error more => .error (issues ++ more)
  | .error issues, .ok _ => .error issues
  | .ok _, .error issues => .error issues

def placed {α : Type} (place : Text) (part : Checked α) : Checked α := part.mapError (List.map (Issue.under [place]))

def complain {α : Type} (complaint : Complaint) : Checked α := .error [⟨[], complaint.message⟩]

/-- A check of a value, or of its absence. -/
abbrev Check (α : Type) := Option Json → Checked α

namespace Check

def wanted {α : Type} (name : String) (read : Json → Option α) : Check α
  | none => complain .required
  | some json =>
    match read json with
    | some value => .ok value
    | none => complain (.expected (units name) json.typeName)

def guarded {α : Type} (check : Check α) (bad : α → Prop) [DecidablePred bad] (complaint : Complaint) : Check α :=
  fun value => do
    let kept ← check value
    if bad kept then complain complaint else .ok kept

def text : Check Text := wanted "string" fun
  | .string value => some value
  | _ => none

def array : Check (List Json) := wanted "array" fun
  | .array items => some items
  | _ => none

def items {α : Type} (check : Check α) : Nat → List Json → Checked (List α)
  | _, [] => .ok []
  | i, item :: rest =>
    (both (placed (ofNat i) (check (some item))) (items check (i + 1) rest)).map fun (one, others) => one :: others

/-- An array, with the issues of all items beside that of their number. -/
def list {α : Type} (least : Nat) (check : Check α) : Check (List α) := fun value => do
  let values ← array value
  let counted : Checked Unit := if values.length < least then complain (.tooFew least) else .ok ()
  (both counted (items check 0 values)).map Prod.snd

/-- An array of two items. A short one is not looked into; a long one is an issue beside those of its first two. -/
def pair {α β : Type} (first : Check α) (second : Check β) : Check (α × β) := fun value => do
  match ← array value with
  | one :: two :: more =>
    let counted : Checked Unit := if more.isEmpty then .ok () else complain (.tooMany 2)
    (both counted (both (placed (ofNat 0) (first (some one))) (placed (ofNat 1) (second (some two))))).map Prod.snd
  | _ => complain (.tooFew 2)

def members (object : Json) : {α : Type} → Fields Check α → Checked α
  | _, .nil => .ok ()
  | _, .cons name check rest => both (placed name (check (object.member? name))) (members object rest)

def object {α : Type} (fields : Fields Check α) : Check α := fun value => do
  let object ← wanted "object" (fun | .object members => some (Json.object members) | _ => none) value
  members object fields

end Check

instance : Validation where
  Schema := Check
  text := Check.text
  atLeast n check := Check.guarded check (fun t => t.length < n) (.tooShort n)
  atMost n check := Check.guarded check (fun t => n < t.length) (.tooLong n)
  optional check := fun
    | none => .ok none
    | some json => (check (some json)).map some
  list := Check.list
  pair := Check.pair
  object := Check.object
  check check := check

end Emend.Schema
