import Emend.Command.Value
import Emend.Proofs.NumberValues

/-! Which texts the flag for concurrency takes, and what it makes of them. Files are counted in whole numbers from one
on, but a text is judged by its number before that is cut to its whole part, so a number below one is taken and nothing
is left of it. -/

namespace Emend.Command

open Text Binary64

theorem readConcurrency_eq (input : Text) : readConcurrency input =
    if (ofText input).isFinite = true ∧ 0 < (ofText input).value then .ok (ofText input).floor
    else .error .notPositive := by
  rw [readConcurrency]
  apply if_congr _ rfl rfl
  rw [Bool.and_eq_true]
  apply and_congr_right
  intro finite
  rw [lt_iff_value rfl finite, value_zero]

theorem readConcurrency_error_iff (input : Text) : readConcurrency input = .error .notPositive ↔
    (ofText input).isFinite = false ∨ (ofText input).value ≤ 0 := by
  rw [readConcurrency_eq, ← not_lt, ← Bool.not_eq_true, ← not_and_or]
  split
  next taken => exact iff_of_false nofun (not_not.mpr taken)
  next refused => exact iff_of_true rfl refused

theorem readConcurrency_ok_iff {input : Text} {result : Binary64} : readConcurrency input = .ok result ↔
    ((ofText input).isFinite = true ∧ 0 < (ofText input).value) ∧ (ofText input).floor = result := by
  rw [readConcurrency_eq]
  split
  next taken => rw [Except.ok.injEq, and_iff_right taken]
  next refused => exact iff_of_false nofun fun both => refused both.1

/-- A text is refused where its number is none, infinite or not above zero. From one on it gives the whole part of its
number, which is one at least. Between zero and one it is not refused, and gives zero. -/
theorem readConcurrency_exact (input : Text) :
    (readConcurrency input = .error .notPositive ↔ (ofText input).isFinite = false ∨ (ofText input).value ≤ 0) ∧
      ((∃ result, readConcurrency input = .ok result ∧ result.isFinite = true ∧
          result.value = ⌊(ofText input).value⌋ ∧ 1 ≤ result.value) ↔
        (ofText input).isFinite = true ∧ 1 ≤ (ofText input).value) ∧
      (readConcurrency input = .ok .zero ↔
        (ofText input).isFinite = true ∧ 0 < (ofText input).value ∧ (ofText input).value < 1) := by
  have floor := value_floor (fits_ofText input)
  refine ⟨readConcurrency_error_iff input, ⟨?_, ?_⟩, ⟨?_, ?_⟩⟩
  · rintro ⟨result, taken, _, same, least⟩
    refine ⟨(readConcurrency_ok_iff.mp taken).1.1, ?_⟩
    exact least.trans (same.trans_le (Int.floor_le _))
  · rintro ⟨finite, least⟩
    obtain ⟨kept, same⟩ := floor finite
    refine ⟨_, readConcurrency_ok_iff.mpr ⟨⟨finite, zero_lt_one.trans_le least⟩, rfl⟩, kept, same, ?_⟩
    have whole : 1 ≤ ⌊(ofText input).value⌋ := Int.le_floor.mpr (by exact_mod_cast least)
    rw [same]
    exact_mod_cast whole
  · intro taken
    obtain ⟨⟨finite, above⟩, nothing⟩ := readConcurrency_ok_iff.mp taken
    have same := (floor finite).2
    rw [nothing, value_zero] at same
    refine ⟨finite, above, (Int.lt_floor_add_one _).trans_eq ?_⟩
    rw [← same, zero_add]
  · rintro ⟨finite, above, below⟩
    exact readConcurrency_ok_iff.mpr ⟨⟨finite, above⟩, floor_fraction above below⟩

/-- Twenty digits write less than one, but one is the number next to them. -/
example : readConcurrency (units "0.99999999999999999999") = .ok (.ofNat 1) := by decide +kernel

/-- One half is taken as a number of files and gives none at all. -/
theorem readConcurrency_vanishes : (ofText (units "0.5")).value = 1 / 2 ∧ readConcurrency (units "0.5") = .ok .zero ∧
    Binary64.zero.value = 0 := by
  have half : ofText (units "0.5") = .finite false normal (-53) := by decide +kernel
  refine ⟨?_, by decide +kernel, value_zero⟩
  rw [half, value, signOf, normal]
  norm_num

end Emend.Command
