import Emend.Expression.Match

/-! The units between two positions of a text. Neighbouring stretches join, and a stretch that is
cut in two as a list is cut at a position. -/

namespace Emend.Expression

theorem Span.units_eq (text : Array UInt16) (start stop : Nat) :
    Span.units text ⟨start, stop⟩ = (text.toList.drop start).take (stop - start) := by
  simp [Span.units]

theorem Span.units_of_le (text : Array UInt16) {start stop : Nat} (order : stop ≤ start) :
    Span.units text ⟨start, stop⟩ = [] := by
  rw [Span.units_eq, Nat.sub_eq_zero_of_le order, List.take_zero]

theorem Span.length_units (text : Array UInt16) (start : Nat) {stop : Nat} (inside : stop ≤ text.size) :
    (Span.units text ⟨start, stop⟩).length = stop - start := by
  rw [Span.units_eq, List.length_take, List.length_drop, Array.length_toList]
  omega

theorem Span.units_append (text : Array UInt16) {a b c : Nat} (first : a ≤ b) (second : b ≤ c) :
    Span.units text ⟨a, b⟩ ++ Span.units text ⟨b, c⟩ = Span.units text ⟨a, c⟩ := by
  obtain ⟨one, rfl⟩ := Nat.exists_eq_add_of_le first
  obtain ⟨two, rfl⟩ := Nat.exists_eq_add_of_le second
  rw [Span.units_eq, Span.units_eq, Span.units_eq, Nat.add_sub_cancel_left, Nat.add_sub_cancel_left,
    show a + one + two - a = one + two by omega, List.take_add, List.drop_drop]

theorem Span.units_succ (text : Array UInt16) {position : Nat} {u : UInt16}
    (found : text[position]? = some u) : Span.units text ⟨position, position + 1⟩ = [u] := by
  obtain ⟨inside, rfl⟩ := Array.getElem?_eq_some_iff.mp found
  rw [Span.units_eq, Nat.add_sub_cancel_left, List.drop_eq_getElem_cons (by simpa using inside)]
  simp

theorem Span.getElem?_of_units (text : Array UInt16) {start stop : Nat} {u : UInt16} {others : Text}
    (same : Span.units text ⟨start, stop⟩ = u :: others) : text[start]? = some u := by
  rw [Span.units_eq] at same
  have first : ((text.toList.drop start).take (stop - start)).head? = some u := by rw [same]; rfl
  have within : stop - start ≠ 0 := by
    intro nothing
    simp [nothing] at same
  rw [List.head?_take, if_neg within, List.head?_drop] at first
  simpa using first

theorem Span.units_split (text : Array UInt16) {start stop : Nat} {first second : Text}
    (order : start ≤ stop) (inside : stop ≤ text.size)
    (cut : Span.units text ⟨start, stop⟩ = first ++ second) :
    ∃ middle, start ≤ middle ∧ middle ≤ stop ∧ Span.units text ⟨start, middle⟩ = first ∧
      Span.units text ⟨middle, stop⟩ = second := by
  have size := Span.length_units text start inside
  rw [cut, List.length_append] at size
  have joined := Span.units_append text (Nat.le_add_right start first.length)
    (show start + first.length ≤ stop by omega)
  have short := Span.length_units text start
    (show start + first.length ≤ text.size by omega)
  rw [cut] at joined
  obtain ⟨left, right⟩ := List.append_inj joined (by rw [short]; omega)
  exact ⟨start + first.length, by omega, by omega, left, right⟩

theorem sameUnits_iff (text : Array UInt16) {a b count : Nat} (first : a + count ≤ text.size)
    (second : b + count ≤ text.size) :
    sameUnits text a b count = true ↔
      Span.units text ⟨a, a + count⟩ = Span.units text ⟨b, b + count⟩ := by
  induction count generalizing a b with
  | zero => simp [sameUnits, Span.units_of_le]
  | succ count ih =>
    have left : text[a]? = some text[a] := Array.getElem?_eq_getElem (by omega)
    have right : text[b]? = some text[b] := Array.getElem?_eq_getElem (by omega)
    rw [← Span.units_append text (Nat.le_succ a) (show a + 1 ≤ a + (count + 1) by omega),
      ← Span.units_append text (Nat.le_succ b) (show b + 1 ≤ b + (count + 1) by omega),
      Span.units_succ text left, Span.units_succ text right]
    have rest := ih (a := a + 1) (b := b + 1) (by omega) (by omega)
    rw [show a + 1 + count = a + (count + 1) by omega, show b + 1 + count = b + (count + 1) by omega]
      at rest
    simp [sameUnits, rest, left, right]

end Emend.Expression
