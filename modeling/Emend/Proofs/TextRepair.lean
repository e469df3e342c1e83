import Emend.Text.Basic

/-! What repairing a text keeps. Units outside of surrogates stay, so a repaired text has its slashes
and dots where the text has them, and repairing the pieces between them repairs the whole. -/

namespace Emend.Text

/-- A half of a pair, or what should have been one. -/
def isHalf (u : UInt16) : Bool := 0xD800 ≤ u && u ≤ 0xDFFF

theorem isSurrogate_toNat (u : UInt16) : isSurrogate u.toNat = isHalf u := by
  simp only [isSurrogate, isHalf, UInt16.le_iff_toNat_le]
  rfl

theorem isHighSurrogate_half {u : UInt16} (high : isHighSurrogate u = true) : isHalf u = true := by
  simp only [isHighSurrogate, isHalf, Bool.and_eq_true, decide_eq_true_eq, UInt16.le_iff_toNat_le] at high ⊢
  simp only [UInt16.reduceToNat] at high ⊢
  omega

theorem isLowSurrogate_half {u : UInt16} (low : isLowSurrogate u = true) : isHalf u = true := by
  simp only [isLowSurrogate, isHalf, Bool.and_eq_true, decide_eq_true_eq, UInt16.le_iff_toNat_le] at low ⊢
  simp only [UInt16.reduceToNat] at low ⊢
  omega

theorem codes_cons_flat {u : UInt16} (flat : isHighSurrogate u = false) (t : Text) :
    codes (u :: t) = u.toNat :: codes t := by
  simp only [codes, List.foldr_cons]
  generalize List.foldr codeStep [] t = after
  cases after with
  | nil => rfl
  | cons code after => simp [codeStep, flat]

theorem pairValue_large (high low : UInt16) : 0x10000 ≤ pairValue high low := by
  unfold pairValue
  omega

/-- The first code point of a text is its first unit, or is beyond all units. -/
theorem codes_cons (u : UInt16) (t : Text) :
    ∃ code after, codes (u :: t) = code :: after ∧ (code = u.toNat ∨ 0x10000 ≤ code) := by
  simp only [codes, List.foldr_cons]
  generalize List.foldr codeStep [] t = after
  cases after with
  | nil => exact ⟨_, _, rfl, .inl rfl⟩
  | cons code after =>
    rw [codeStep]
    split
    · exact ⟨_, _, rfl, .inr (pairValue_large _ _)⟩
    · exact ⟨_, _, rfl, .inl rfl⟩

theorem codes_cons_apart {u v : UInt16} (apart : isLowSurrogate v = false) (t : Text) :
    codes (u :: v :: t) = u.toNat :: codes (v :: t) := by
  obtain ⟨code, after, first, small | large⟩ := codes_cons v t
  · rw [codes, List.foldr_cons, ← codes, first, codeStep, small, UInt16.ofNat_toNat, apart, Bool.and_false]
    rfl
  · rw [codes, List.foldr_cons, ← codes, first, codeStep, decide_eq_false (Nat.not_lt.mpr large), Bool.and_false]
    rfl

theorem codes_pair {u v : UInt16} (high : isHighSurrogate u = true) (low : isLowSurrogate v = true) (t : Text) :
    codes (u :: v :: t) = pairValue u v :: codes t := by
  have flat : isHighSurrogate v = false := by
    cases both : isHighSurrogate v with
    | false => rfl
    | true =>
      simp only [isHighSurrogate, isLowSurrogate, Bool.and_eq_true, decide_eq_true_eq,
        UInt16.le_iff_toNat_le, UInt16.reduceToNat] at both low
      omega
  have small : v.toNat < 0x10000 := v.toNat_lt
  rw [codes, List.foldr_cons, ← codes, codes_cons_flat flat, codeStep, UInt16.ofNat_toNat, high, low,
    decide_eq_true small]
  rfl

theorem codes_append_cons {v : UInt16} (plain : isHalf v = false) (a b : Text) :
    codes (a ++ v :: b) = codes a ++ codes (v :: b) := by
  have apart : isLowSurrogate v = false := by
    rw [Bool.eq_false_iff]
    intro low
    rw [isLowSurrogate_half low] at plain
    cases plain
  induction a with
  | nil => rfl
  | cons u a ih =>
    cases a with
    | nil => exact codes_cons_apart apart b
    | cons w a =>
      obtain ⟨code, after, first, _⟩ := codes_cons w a
      have front : codes (u :: w :: a) = codeStep u (codes (w :: a)) := rfl
      have whole : codes (u :: (w :: a ++ v :: b)) = codeStep u (codes (w :: a ++ v :: b)) := rfl
      rw [List.cons_append, whole, ih, front, first, List.cons_append, codeStep, codeStep]
      split <;> rfl

theorem ofCode_toNat (u : UInt16) : ofCode u.toNat = [u] := by
  have small : u.toNat < 0x10000 := u.toNat_lt
  rw [ofCode, if_pos small, UInt16.ofNat_toNat]

theorem ofCode_pairValue {u v : UInt16} (high : isHighSurrogate u = true) (low : isLowSurrogate v = true) :
    ofCode (pairValue u v) = [u, v] := by
  simp only [isHighSurrogate, isLowSurrogate, Bool.and_eq_true, decide_eq_true_eq,
    UInt16.le_iff_toNat_le, UInt16.reduceToNat] at high low
  have first : 0xD800 + (pairValue u v - 0x10000) / 0x400 = u.toNat := by
    unfold pairValue
    omega
  have second : 0xDC00 + (pairValue u v - 0x10000) % 0x400 = v.toNat := by
    unfold pairValue
    omega
  rw [ofCode, if_neg (Nat.not_lt.mpr (pairValue_large u v)), first, second, UInt16.ofNat_toNat, UInt16.ofNat_toNat]

def replacement : UInt16 := 0xFFFD

/-- A half at the front of a text makes no pair with what comes after it. -/
def Lone (u : UInt16) (t : Text) : Prop :=
  isHighSurrogate u = true → ∀ v rest, t = v :: rest → isLowSurrogate v = false

section

variable {u v : UInt16}

theorem repair_cons_plain (plain : isHalf u = false) (t : Text) : repair (u :: t) = u :: repair t := by
  have flat : isHighSurrogate u = false := by
    cases high : isHighSurrogate u with
    | false => rfl
    | true =>
      rw [isHighSurrogate_half high] at plain
      cases plain
  rw [repair, codes_cons_flat flat, List.map_cons, isSurrogate_toNat, plain]
  simp only [ofCodes, List.flatMap_cons, Bool.false_eq_true, if_false, ofCode_toNat]
  rfl

theorem repair_cons_lone (half : isHalf u = true) {t : Text} (lone : Lone u t) :
    repair (u :: t) = replacement :: repair t := by
  have first : codes (u :: t) = u.toNat :: codes t := by
    cases high : isHighSurrogate u with
    | false => exact codes_cons_flat high t
    | true =>
      cases t with
      | nil => rfl
      | cons v rest => exact codes_cons_apart (lone high v rest rfl) rest
  rw [repair, first, List.map_cons, isSurrogate_toNat, half]
  rfl

theorem repair_pair (high : isHighSurrogate u = true) (low : isLowSurrogate v = true) (t : Text) :
    repair (u :: v :: t) = u :: v :: repair t := by
  have proper : isSurrogate (pairValue u v) = false := by
    have large := pairValue_large u v
    rw [isSurrogate, decide_eq_false (p := pairValue u v ≤ 0xDFFF) (by omega), Bool.and_false]
  rw [repair, codes_pair high low, List.map_cons, proper]
  simp only [ofCodes, List.flatMap_cons, Bool.false_eq_true, if_false, ofCode_pairValue high low]
  rfl

end

/-- A text is empty, or starts with a plain unit, with a pair, or with a half that stands alone. -/
theorem repair_induction {motive : Text → Prop} (nil : motive [])
    (plain : ∀ u t, isHalf u = false → motive t → motive (u :: t))
    (pair : ∀ u v t, isHighSurrogate u = true → isLowSurrogate v = true → motive t → motive (u :: v :: t))
    (lone : ∀ u t, isHalf u = true → Lone u t → motive t → motive (u :: t)) (t : Text) : motive t := by
  suffices bounded : ∀ size (t : Text), t.length ≤ size → motive t from bounded t.length t (Nat.le_refl _)
  intro size
  induction size with
  | zero =>
    intro t short
    obtain rfl := List.length_eq_zero_iff.mp (Nat.le_zero.mp short)
    exact nil
  | succ size ih =>
    intro t short
    cases t with
    | nil => exact nil
    | cons u t =>
      rw [List.length_cons] at short
      cases half : isHalf u with
      | false => exact plain u t half (ih t (by omega))
      | true =>
        by_cases alone : Lone u t
        · exact lone u t half alone (ih t (by omega))
        · simp only [Lone, Classical.not_forall, Bool.not_eq_false] at alone
          obtain ⟨high, v, rest, rfl, low⟩ := alone
          rw [List.length_cons] at short
          exact pair u v rest high low (ih rest (by omega))

/-- What a plain unit separates is repaired apart. -/
theorem repair_append_cons {v : UInt16} (plain : isHalf v = false) (a b : Text) :
    repair (a ++ v :: b) = repair a ++ v :: repair b := by
  induction a using repair_induction with
  | nil => exact repair_cons_plain plain b
  | plain u t own ih => rw [List.cons_append, repair_cons_plain own, ih, repair_cons_plain own, List.cons_append]
  | pair u w t high low ih =>
    rw [List.cons_append, List.cons_append, repair_pair high low, ih, repair_pair high low]
    rfl
  | lone u t half alone ih =>
    have apart : Lone u (t ++ v :: b) := by
      intro high w rest same
      cases t with
      | nil =>
        obtain ⟨rfl, _⟩ := List.cons.inj same
        cases low : isLowSurrogate v with
        | false => rfl
        | true =>
          rw [isLowSurrogate_half low] at plain
          cases plain
      | cons first t =>
        obtain ⟨rfl, _⟩ := List.cons.inj same
        exact alone high first t rfl
    rw [List.cons_append, repair_cons_lone half apart, ih, repair_cons_lone half alone, List.cons_append]

theorem repair_plain {t : Text} (plain : ∀ u ∈ t, isHalf u = false) : repair t = t := by
  induction t with
  | nil => rfl
  | cons u t ih =>
    rw [repair_cons_plain (plain u List.mem_cons_self), ih fun v member => plain v (List.mem_cons_of_mem _ member)]

theorem mem_of_mem_repair {v : UInt16} (other : v ≠ replacement) {t : Text} (member : v ∈ repair t) : v ∈ t := by
  induction t using repair_induction with
  | nil => exact member
  | plain u t own ih =>
    rw [repair_cons_plain own] at member
    rcases List.mem_cons.mp member with rfl | later
    · exact List.mem_cons_self
    · exact List.mem_cons_of_mem _ (ih later)
  | pair u w t high low ih =>
    rw [repair_pair high low] at member
    rcases List.mem_cons.mp member with rfl | later
    · exact List.mem_cons_self
    · rcases List.mem_cons.mp later with rfl | later
      · exact List.mem_cons_of_mem _ List.mem_cons_self
      · exact List.mem_cons_of_mem _ (List.mem_cons_of_mem _ (ih later))
  | lone u t half alone ih =>
    rw [repair_cons_lone half alone] at member
    rcases List.mem_cons.mp member with rfl | later
    · exact absurd rfl other
    · exact List.mem_cons_of_mem _ (ih later)

/-- A text that is repaired to plain units other than the replacement was that text. -/
theorem eq_of_repair_eq {t s : Text} (plain : ∀ u ∈ s, isHalf u = false ∧ u ≠ replacement)
    (same : repair t = s) : t = s := by
  induction t using repair_induction generalizing s with
  | nil => exact same
  | plain u t own ih =>
    rw [repair_cons_plain own] at same
    subst same
    rw [← ih (fun v member => plain v (List.mem_cons_of_mem _ member)) rfl]
  | pair u w t high low ih =>
    rw [repair_pair high low] at same
    subst same
    have half := (plain u List.mem_cons_self).1
    rw [isHighSurrogate_half high] at half
    cases half
  | lone u t half alone ih =>
    rw [repair_cons_lone half alone] at same
    subst same
    exact absurd rfl (plain replacement List.mem_cons_self).2

end Emend.Text
