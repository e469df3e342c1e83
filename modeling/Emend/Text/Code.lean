import Emend.Text.Basic

/-! Sets of code points, as the properties of characters are given. -/

namespace Emend.Text

/-- A set of code points as ranges, each from its first to its last. The tables of this library are
in increasing order. -/
abbrev CodeRanges := List (Nat × Nat)

def CodeRanges.contains (ranges : CodeRanges) (code : Nat) : Bool :=
  ranges.any fun range => range.1 ≤ code && code ≤ range.2

end Emend.Text
