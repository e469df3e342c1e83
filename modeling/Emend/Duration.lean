import Emend.Binary64.Decimal

/-! Durations in milliseconds, and how they are written. -/

namespace Emend.Duration

open Text

/-- A whole number of nanoseconds in milliseconds. The count is rounded to a floating-point number
first, then the quotient is. -/
def ofNanoseconds (count : Int) : Binary64 := (Binary64.ofInt count).divNat 1000000

/-- A duration with its unit: seconds from a thousand milliseconds on, and fewer places the longer
it is. -/
def format (ms : Binary64) : Text :=
  if !ms.isFinite then ms.toText ++ units "ms"
  else if ms.ge (.ofNat 1000) then (ms.divNat 1000).toFixed 2 ++ units "s"
  else if ms.ge (.ofNat 10) then ms.toFixed 1 ++ units "ms"
  else ms.toFixed 2 ++ units "ms"

end Emend.Duration
