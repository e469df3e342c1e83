import Emend.Binary64.Decimal
import Emend.Text.Case

/-! The values that flags take, and why a text is none of them. -/

namespace Emend.Command

open Text

inductive ValueError where
  | noExtension
  | notPositive
  | negative
  | notBoolean (input : Text)
  deriving DecidableEq, Repr

def ValueError.message : ValueError → Text
  | noExtension => units "--ext must name an extension"
  | notPositive => units "--concurrency must be a positive number"
  | negative => units "--verbose must be a non-negative number"
  | notBoolean input => units "Cannot convert " ++ input ++ units " to a boolean"

/-- An extension, with or without its dot, blanks around it ignored. -/
def readExtension (input : Text) : Except ValueError Text :=
  let extension := trim input
  if extension.isEmpty || extension = [dot] then .error .noExtension else .ok extension

/-- The whole part of a number above zero. -/
def readConcurrency (input : Text) : Except ValueError Binary64 :=
  let number := Binary64.ofText input
  if number.isFinite && Binary64.lt .zero number then .ok number.floor else .error .notPositive

/-- The whole part of a number that is not below zero. -/
def readLevel (input : Text) : Except ValueError Binary64 :=
  let number := Binary64.ofText input
  if number.isFinite && !number.isNegative then .ok number.floor else .error .negative

def readBoolean (input : Text) : Except ValueError Bool :=
  let word := toLower input
  if (["true", "t", "yes", "y", "on", "1"].map units).contains word then .ok true
  else if (["false", "f", "no", "n", "off", "0"].map units).contains word then .ok false
  else .error (.notBoolean input)

end Emend.Command
