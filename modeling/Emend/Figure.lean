import Emend.Binary64.Decimal

/-! The numbers in a report. A run counts, so its figures are natural numbers and, for what a file
gains, integers. A report that comes from elsewhere may hold any number. All are shown alike. -/

namespace Emend

/-- A kind of number that a report may hold. -/
class Figure (α : Type) where
  number : α → Binary64
  isOne : α → Bool
  isPositive : α → Bool

namespace Figure

instance : Figure Nat := ⟨.ofNat, fun n => n == 1, fun n => 0 < n⟩

instance : Figure Int := ⟨.ofInt, fun n => n == 1, fun n => 0 < n⟩

instance : Figure Binary64 := ⟨id, fun n => n == .ofNat 1, Binary64.lt .zero⟩

variable {α : Type} [Figure α]

/-- A figure in the digits of the number nearest to it, which up to `2 ^ 53` is the figure itself. -/
def toText (figure : α) : Text := (number figure).toText

def word (figure : α) (one many : String) : Text := units (if isOne figure then one else many)

def counted (figure : α) (one many : String) : Text := toText figure ++ units " " ++ word figure one many

end Figure

end Emend
