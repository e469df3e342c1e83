import Emend.Binary64.Decimal

/-! JSON values. The members of an object keep the order in which their names first occurred, and a
repeated name takes its last value. -/

namespace Emend

inductive Json where
  | null
  | boolean (value : Bool)
  | number (value : Binary64)
  | string (value : Text)
  | array (items : List Json)
  | object (members : List (Text × Json))
  deriving Inhabited, Repr

namespace Json

def member? (name : Text) : Json → Option Json
  | object members => members.lookup name
  | _ => none

/-- Give a name a value, in its place if the name is there and at the end if not. -/
def putMember (name : Text) (value : Json) : List (Text × Json) → List (Text × Json)
  | [] => [(name, value)]
  | (other, old) :: rest =>
    if other = name then (name, value) :: rest else (other, old) :: putMember name value rest

def typeName : Json → Text
  | null => units "null"
  | boolean _ => units "boolean"
  | number _ => units "number"
  | string _ => units "string"
  | array _ => units "array"
  | object _ => units "object"

def ofNat (n : Nat) : Json := number (.ofNat n)

def ofInt (n : Int) : Json := number (.ofInt n)

def ofTexts (texts : List Text) : Json := array (texts.map string)

def record (members : List (String × Json)) : Json :=
  object (members.map fun (name, value) => (units name, value))

end Json

end Emend
