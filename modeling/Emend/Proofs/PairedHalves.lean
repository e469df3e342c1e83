import Emend.Proofs.TextRepair

/-! Reading a text unit by unit, with at most one half of a pair open. A text is well formed if and only if no half is
misplaced and none is left open in the end, and what can be said of a text in parts follows from this: where a part
starts and ends between code points it is well formed, and another such part may take its place. -/

namespace Emend.Text

/-- Read a text from where a half of a pair is open or none is. A low half stands where one is open and nowhere else,
and a high one opens the next pair. What is open in the end is nothing if a half is misplaced. -/
def pairing : (half : Bool) → Text → Option Bool
  | half, [] => some half
  | half, u :: rest => if isLowSurrogate u = half then pairing (isHighSurrogate u) rest else none

section Halves

variable {u : UInt16}

theorem isHalf_iff : isHalf u = true ↔ isHighSurrogate u = true ∨ isLowSurrogate u = true := by
  simp only [isHalf, isHighSurrogate, isLowSurrogate, Bool.and_eq_true, decide_eq_true_eq, UInt16.le_iff_toNat_le,
    UInt16.reduceToNat]
  omega

theorem isHighSurrogate_eq_false_of_low (low : isLowSurrogate u = true) : isHighSurrogate u = false := by
  rw [Bool.eq_false_iff]
  intro high
  simp only [isHighSurrogate, isLowSurrogate, Bool.and_eq_true, decide_eq_true_eq, UInt16.le_iff_toNat_le,
    UInt16.reduceToNat] at high low
  omega

theorem halves_of_plain (plain : isHalf u = false) : isLowSurrogate u = false ∧ isHighSurrogate u = false := by
  have neither := mt isHalf_iff.mpr (Bool.eq_false_iff.mp plain)
  rw [not_or, Bool.not_eq_true, Bool.not_eq_true] at neither
  exact neither.symm

end Halves

section Reading

variable {half after : Bool} {t : Text} {u : UInt16}

theorem pairing_cons : pairing half (u :: t) = some after ↔
    isLowSurrogate u = half ∧ pairing (isHighSurrogate u) t = some after := by
  rw [pairing]
  split <;> simp [*]

theorem pairing_append (half : Bool) (one other : Text) :
    pairing half (one ++ other) = (pairing half one).bind fun middle => pairing middle other := by
  induction one generalizing half with
  | nil => rfl
  | cons u one ih =>
    rw [List.cons_append, pairing, pairing]
    split
    · exact ih _
    · rfl

theorem pairing_append_iff {one other : Text} : pairing half (one ++ other) = some after ↔
    ∃ middle, pairing half one = some middle ∧ pairing middle other = some after := by
  rw [pairing_append, Option.bind_eq_some_iff]

/-- Plain units stand where no half is open, and open none. -/
theorem pairing_plain (plain : ∀ u ∈ t, isHalf u = false) : pairing false t = some false := by
  induction t with
  | nil => rfl
  | cons u t ih =>
    obtain ⟨low, high⟩ := halves_of_plain (plain u List.mem_cons_self)
    rw [pairing_cons, high]
    exact ⟨low, ih fun v member => plain v (List.mem_cons_of_mem _ member)⟩

theorem pairing_between (plain : isHalf u = false) {left right : Text} :
    pairing half (left ++ u :: right) = some after ↔ pairing half left = some false ∧ pairing false right = some after := by
  obtain ⟨low, high⟩ := halves_of_plain plain
  simp only [pairing_append_iff, pairing_cons, low, high]
  constructor
  · rintro ⟨middle, first, rfl, later⟩
    exact ⟨first, later⟩
  · rintro ⟨first, later⟩
    exact ⟨false, first, rfl, later⟩

theorem pairing_unique (occupied : t ≠ []) {other otherAfter : Bool} (read : pairing half t = some after)
    (otherwise : pairing other t = some otherAfter) : half = other ∧ after = otherAfter := by
  cases t with
  | nil => exact absurd rfl occupied
  | cons u t =>
    rw [pairing_cons] at read otherwise
    obtain ⟨low, rest⟩ := read
    obtain ⟨lowToo, restToo⟩ := otherwise
    exact ⟨low.symm.trans lowToo, Option.some.inj (rest.symm.trans restToo)⟩

end Reading

section Forms

variable {u v : UInt16} {t : Text}

theorem wellFormed_iff_codes : wellFormed t = true ↔ ∀ code ∈ codes t, isSurrogate code = false := by simp [wellFormed]

theorem wellFormed_cons_plain (plain : isHalf u = false) : wellFormed (u :: t) = true ↔ wellFormed t = true := by
  rw [wellFormed_iff_codes, codes_cons_flat (halves_of_plain plain).2, List.forall_mem_cons, isSurrogate_toNat,
    and_iff_right plain, wellFormed_iff_codes]

theorem wellFormed_pair (high : isHighSurrogate u = true) (low : isLowSurrogate v = true) :
    wellFormed (u :: v :: t) = true ↔ wellFormed t = true := by
  have proper : isSurrogate (pairValue u v) = false := by
    have large := pairValue_large u v
    rw [isSurrogate, decide_eq_false (p := pairValue u v ≤ 0xDFFF) (by omega), Bool.and_false]
  rw [wellFormed_iff_codes, codes_pair high low, List.forall_mem_cons, and_iff_right proper, wellFormed_iff_codes]

theorem not_wellFormed_lone (half : isHalf u = true) (lone : Lone u t) : ¬ wellFormed (u :: t) = true := by
  have stays : ∃ codes, Text.codes (u :: t) = u.toNat :: codes := by
    cases high : isHighSurrogate u with
    | false => exact ⟨_, codes_cons_flat high t⟩
    | true =>
      cases t with
      | nil => exact ⟨[], rfl⟩
      | cons v rest => exact ⟨_, codes_cons_apart (lone high v rest rfl) rest⟩
  obtain ⟨codes, first⟩ := stays
  rw [wellFormed_iff_codes, first, List.forall_mem_cons, isSurrogate_toNat, half]
  exact fun proper => nomatch proper.1

theorem repair_eq_self_iff : repair t = t ↔ wellFormed t = true := by
  induction t using repair_induction with
  | nil => exact ⟨fun _ => rfl, fun _ => rfl⟩
  | plain u t own ih => rw [repair_cons_plain own, List.cons_inj_right, ih, wellFormed_cons_plain own]
  | pair u v t high low ih =>
    rw [repair_pair high low, List.cons_inj_right, List.cons_inj_right, ih, wellFormed_pair high low]
  | lone u t own alone ih =>
    rw [repair_cons_lone own alone]
    refine ⟨fun same => ?_, fun proper => absurd proper (not_wellFormed_lone own alone)⟩
    rw [← (List.cons.inj same).1] at own
    cases own

/-- A text is well formed if and only if reading it leaves no half open. -/
theorem wellFormed_iff : wellFormed t = true ↔ pairing false t = some false := by
  induction t using repair_induction with
  | nil => exact ⟨fun _ => rfl, fun _ => rfl⟩
  | plain u t own ih =>
    obtain ⟨low, high⟩ := halves_of_plain own
    rw [wellFormed_cons_plain own, ih, pairing_cons, high, and_iff_right low]
  | pair u v t high low ih =>
    have opens : isLowSurrogate u = false := by
      rw [Bool.eq_false_iff]
      intro both
      rw [isHighSurrogate_eq_false_of_low both] at high
      cases high
    rw [wellFormed_pair high low, ih, pairing_cons, pairing_cons, high, isHighSurrogate_eq_false_of_low low,
      and_iff_right low, and_iff_right opens]
  | lone u t own alone ih =>
    refine ⟨fun proper => absurd proper (not_wellFormed_lone own alone), fun read => ?_⟩
    obtain ⟨low, rest⟩ := pairing_cons.mp read
    have high := (isHalf_iff.mp own).resolve_right (Bool.eq_false_iff.mp low)
    rw [high] at rest
    cases t with
    | nil => cases rest
    | cons v more =>
      have closes := (pairing_cons.mp rest).1
      rw [alone high v more rfl] at closes
      cases closes

end Forms

theorem wellFormed_append {one other : Text} (first : wellFormed one = true) (second : wellFormed other = true) :
    wellFormed (one ++ other) = true := by
  rw [wellFormed_iff] at first second ⊢
  exact pairing_append_iff.mpr ⟨false, first, second⟩

theorem wellFormed_flatMap {α : Type} {items : List α} {f : α → Text}
    (each : ∀ item ∈ items, wellFormed (f item) = true) : wellFormed (items.flatMap f) = true := by
  induction items with
  | nil => rfl
  | cons item items ih =>
    rw [List.forall_mem_cons] at each
    rw [List.flatMap_cons]
    exact wellFormed_append each.1 (ih each.2)

/-- A text that is well formed on both sides of a plain unit, and only such a one, is well formed. -/
theorem wellFormed_between {mark : UInt16} (plain : isHalf mark = false) {left right : Text} :
    wellFormed (left ++ mark :: right) = true ↔ wellFormed left = true ∧ wellFormed right = true := by
  simp only [wellFormed_iff, pairing_between plain]

section Edges

variable {t plainText : Text} (plain : ∀ u ∈ plainText, isHalf u = false)
include plain

theorem wellFormed_plain : wellFormed plainText = true := wellFormed_iff.mpr (pairing_plain plain)

theorem wellFormed_plain_append : wellFormed (plainText ++ t) = true ↔ wellFormed t = true := by
  rw [wellFormed_iff, wellFormed_iff, pairing_append, pairing_plain plain, Option.bind_some]

theorem wellFormed_append_plain : wellFormed (t ++ plainText) = true ↔ wellFormed t = true := by
  refine ⟨fun proper => ?_, fun proper => wellFormed_append proper (wellFormed_plain plain)⟩
  rw [wellFormed_iff] at proper ⊢
  obtain ⟨middle, first, later⟩ := pairing_append_iff.mp proper
  suffices closed : middle = false from closed ▸ first
  by_cases occupied : plainText = []
  · subst occupied
    exact Option.some.inj later
  · exact (pairing_unique occupied later (pairing_plain plain)).1

end Edges

/-- A well-formed text with something in it can be read from one place only, and is left as it was begun. -/
theorem pairing_of_wellFormed {t : Text} (proper : wellFormed t = true) (occupied : t ≠ []) {half after : Bool}
    (read : pairing half t = some after) : half = false ∧ after = false :=
  pairing_unique occupied read (wellFormed_iff.mp proper)

theorem isHalf_of_isBlank {u : UInt16} (blank : isBlank u = true) : isHalf u = false := by
  rw [Bool.eq_false_iff]
  intro half
  simp only [isBlank, isHalf, Bool.or_eq_true, Bool.and_eq_true, decide_eq_true_eq, beq_iff_eq,
    UInt16.le_iff_toNat_le, ← UInt16.toNat_inj, UInt16.reduceToNat] at blank half
  omega

end Emend.Text
