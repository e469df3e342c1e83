import Emend.Binary64.Decimal
import Mathlib.Data.Rat.Floor
import Mathlib.Tactic.Ring
import Mathlib.Tactic.Linarith

/-! The rational numbers that finite numbers stand for. Numbers are ordered as these are. A quotient that has 53 bits in
range is not rounded, and the whole part of a number is such a quotient again. Every text that writes a number writes
one of 53 bits in range, whatever its notation. -/

namespace Emend.Binary64

open Text

def signOf (negative : Bool) : ℚ := if negative then -1 else 1

def value : Binary64 → ℚ
  | finite negative significand exponent => signOf negative * (significand * 2 ^ exponent)
  | _ => 0

/-- A finite number has 53 bits at most and an exponent in range. -/
def Fits : Binary64 → Prop
  | finite _ significand exponent =>
    significand < 2 * normal ∧ leastExponent ≤ exponent ∧ exponent ≤ greatestExponent
  | _ => True

theorem value_zero : zero.value = 0 := by simp [zero, value]

theorem fits_zero (negative : Bool) : (finite negative 0 leastExponent).Fits := ⟨by decide, le_refl _, by decide⟩

section Powers

theorem two_zpow_pos (exponent : Int) : (0 : ℚ) < 2 ^ exponent := zpow_pos (by norm_num) exponent

theorem two_zpow_add (exponent other : Int) : (2 : ℚ) ^ (exponent + other) = 2 ^ exponent * 2 ^ other :=
  zpow_add₀ (by norm_num) exponent other

theorem two_zpow_toNat {exponent : Int} (whole : 0 ≤ exponent) :
    (2 : ℚ) ^ exponent = ((2 ^ exponent.toNat : Nat) : ℚ) := by
  rw [Nat.cast_pow, ← zpow_natCast, Int.toNat_of_nonneg whole]
  rfl

theorem cast_twice_normal : ((2 * normal : Nat) : ℚ) = 2 ^ (53 : Int) := by norm_num [normal]

end Powers

section Scaling

variable {numerator denominator : Nat} (exponent : Int)

theorem scaled_pos (positive : 0 < denominator) : 0 < (scaled numerator denominator exponent).2 := by
  rw [scaled]
  split
  · exact Nat.mul_pos positive (Nat.two_pow_pos _)
  · exact positive

theorem scaled_eq (numerator denominator : Nat) :
    ((scaled numerator denominator exponent).1 : ℚ) / (scaled numerator denominator exponent).2 =
      numerator / denominator / 2 ^ exponent := by
  rw [scaled]
  split
  next whole =>
    rw [Nat.pow_eq, Nat.cast_mul, ← two_zpow_toNat whole, div_mul_eq_div_div]
  next small =>
    rw [Nat.pow_eq, Nat.cast_mul, ← two_zpow_toNat (by omega), zpow_neg, ← div_eq_mul_inv, div_right_comm]

theorem ratio_pos (significand : Nat) : 0 < (ratio significand exponent).2 := scaled_pos _ Nat.one_pos

theorem ratio_eq (significand : Nat) :
    ((ratio significand exponent).1 : ℚ) / (ratio significand exponent).2 = significand * 2 ^ exponent := by
  rw [ratio, scaled_eq, Nat.cast_one, div_one, zpow_neg, div_inv_eq_mul]

end Scaling

theorem lt_iff_value {number other : Binary64} (finite : number.isFinite = true) (finiteToo : other.isFinite = true) :
    lt number other = true ↔ number.value < other.value := by
  cases number with
  | nan => cases finite
  | infinity negative => cases finite
  | finite negative significand exponent =>
    cases other with
    | nan => cases finiteToo
    | infinity negative => cases finiteToo
    | finite negative' significand' exponent' =>
      have positive : (0 : ℚ) < (ratio significand exponent).2 := by exact_mod_cast ratio_pos exponent significand
      have positive' : (0 : ℚ) < (ratio significand' exponent').2 := by exact_mod_cast ratio_pos exponent' significand'
      rw [value, value, ← ratio_eq, ← ratio_eq, mul_div_assoc', mul_div_assoc', div_lt_div_iff₀ positive positive', lt]
      generalize ratio significand exponent = left
      generalize ratio significand' exponent' = right
      rw [decide_eq_true_iff, ← Int.cast_lt (R := ℚ)]
      cases negative <;> cases negative' <;> simp [signOf]

section Rounding

variable {numerator denominator : Nat}

theorem roundEven_mul (whole : Nat) (positive : 0 < denominator) :
    roundEven (whole * denominator) denominator = whole := by
  have apart : denominator ≠ 0 := positive.ne'
  simp [roundEven, Nat.mul_div_cancel _ positive, apart.symm]

theorem roundEven_le (numerator denominator : Nat) : roundEven numerator denominator ≤ numerator / denominator + 1 := by
  rw [roundEven]
  split <;> omega

/-- At this exponent a quotient has 53 bits before the point, or fewer if it is the least one. -/
structure Leads (quotient : ℚ) (exponent : Int) : Prop where
  least : leastExponent ≤ exponent
  below : quotient < 2 ^ (exponent + 53)
  above : exponent = leastExponent ∨ 2 ^ (exponent + 52) ≤ quotient

theorem lt_two_zpow_iff (positive : 0 < denominator) (exponent : Int) (bits : Nat) :
    (scaled numerator denominator exponent).1 / (scaled numerator denominator exponent).2 < 2 ^ bits ↔
      (numerator : ℚ) / denominator < 2 ^ (exponent + bits) := by
  have occupied : 0 < (scaled numerator denominator exponent).2 := scaled_pos exponent positive
  have occupied' : (0 : ℚ) < (scaled numerator denominator exponent).2 := by exact_mod_cast occupied
  rw [Nat.div_lt_iff_lt_mul occupied, ← Nat.cast_lt (α := ℚ), Nat.cast_mul, ← div_lt_iff₀ occupied', scaled_eq,
    div_lt_iff₀ (two_zpow_pos exponent), Int.add_comm, two_zpow_add, zpow_natCast, Nat.cast_pow]
  rfl

theorem log2_bounds (some : numerator ≠ 0) (positive : 0 < denominator) :
    (2 : ℚ) ^ ((numerator.log2 : Int) - denominator.log2 - 1) ≤ numerator / denominator ∧
      (numerator : ℚ) / denominator < 2 ^ ((numerator.log2 : Int) - denominator.log2 + 1) := by
  have occupied : (0 : ℚ) < denominator := by exact_mod_cast positive
  have low : (2 : ℚ) ^ (numerator.log2 : Int) ≤ numerator := by exact_mod_cast Nat.log2_self_le some
  have high : (numerator : ℚ) < 2 ^ ((numerator.log2 : Int) + 1) := by exact_mod_cast Nat.lt_log2_self
  have lowToo : (2 : ℚ) ^ (denominator.log2 : Int) ≤ denominator := by exact_mod_cast Nat.log2_self_le positive.ne'
  have highToo : (denominator : ℚ) < 2 ^ ((denominator.log2 : Int) + 1) := by exact_mod_cast Nat.lt_log2_self
  constructor
  · rw [le_div_iff₀ occupied]
    calc (2 : ℚ) ^ ((numerator.log2 : Int) - denominator.log2 - 1) * denominator
        ≤ 2 ^ ((numerator.log2 : Int) - denominator.log2 - 1) * 2 ^ ((denominator.log2 : Int) + 1) :=
          mul_le_mul_of_nonneg_left highToo.le (two_zpow_pos _).le
      _ = 2 ^ (numerator.log2 : Int) := by rw [← two_zpow_add]; congr 1; ring
      _ ≤ numerator := low
  · rw [div_lt_iff₀ occupied]
    calc (numerator : ℚ) < 2 ^ ((numerator.log2 : Int) + 1) := high
      _ = 2 ^ ((numerator.log2 : Int) - denominator.log2 + 1) * 2 ^ (denominator.log2 : Int) := by
          rw [← two_zpow_add]; congr 1; ring
      _ ≤ 2 ^ ((numerator.log2 : Int) - denominator.log2 + 1) * denominator :=
          mul_le_mul_of_nonneg_left lowToo (two_zpow_pos _).le

theorem leads_max {quotient : ℚ} {exponent : Int} (below : quotient < 2 ^ (exponent + 53))
    (above : 2 ^ (exponent + 52) ≤ quotient) : Leads quotient (max leastExponent exponent) := by
  refine ⟨le_max_left _ _, below.trans_le ?_, ?_⟩
  · exact zpow_le_zpow_right₀ (by norm_num) (by omega)
  · rcases max_choice leastExponent exponent with same | same
    · exact .inl same
    · exact .inr (same.symm ▸ above)

theorem exponentOf_leads (some : numerator ≠ 0) (positive : 0 < denominator) :
    Leads (numerator / denominator) (exponentOf numerator denominator) := by
  obtain ⟨low, high⟩ := log2_bounds some positive
  have bits : normal = 2 ^ 52 := by norm_num [normal]
  simp only [exponentOf, bits, lt_two_zpow_iff positive]
  split
  next short =>
    apply leads_max
    · convert short using 2
      omega
    · convert low using 2
      omega
  next long =>
    apply leads_max
    · convert high using 2
      omega
    · exact not_lt.mp long

theorem Leads.le {quotient : ℚ} {exponent : Int} (leads : Leads quotient exponent) {significand : Nat} {own : Int}
    (bits : significand < 2 * normal) (least : leastExponent ≤ own) (same : quotient = significand * 2 ^ own) :
    exponent ≤ own := by
  rcases leads.above with first | above
  · exact first ▸ least
  · have narrow : (significand : ℚ) < 2 ^ (53 : Int) := by
      rw [← cast_twice_normal]
      exact_mod_cast bits
    have short : (2 : ℚ) ^ (exponent + 52) < 2 ^ (53 + own) :=
      calc (2 : ℚ) ^ (exponent + 52) ≤ quotient := above
        _ = significand * 2 ^ own := same
        _ < 2 ^ (53 : Int) * 2 ^ own := mul_lt_mul_of_pos_right narrow (two_zpow_pos own)
        _ = 2 ^ (53 + own) := (two_zpow_add 53 own).symm
    have order := (zpow_lt_zpow_iff_right₀ (by norm_num)).mp short
    omega

def significandOf (numerator denominator : Nat) : Nat :=
  roundEven (scaled numerator denominator (exponentOf numerator denominator)).1
    (scaled numerator denominator (exponentOf numerator denominator)).2

/-- A significand that has been rounded up to one bit more is halved. -/
theorem ofRatio_eq (some : numerator ≠ 0) (negative : Bool) : ofRatio negative numerator denominator =
    if significandOf numerator denominator = 2 * normal then
      if greatestExponent < exponentOf numerator denominator + 1 then .infinity negative
      else .finite negative normal (exponentOf numerator denominator + 1)
    else if greatestExponent < exponentOf numerator denominator then .infinity negative
    else .finite negative (significandOf numerator denominator) (exponentOf numerator denominator) := by
  rw [ofRatio, if_neg some, significandOf]
  dsimp only
  split <;> rfl

theorem significandOf_le (some : numerator ≠ 0) (positive : 0 < denominator) :
    significandOf numerator denominator ≤ 2 * normal := by
  have bits : 2 * normal = 2 ^ 53 := by norm_num [normal]
  rw [bits]
  exact (roundEven_le _ _).trans ((lt_two_zpow_iff positive _ 53).mpr (exponentOf_leads some positive).below)

theorem fits_ofRatio (positive : 0 < denominator) (negative : Bool) :
    (ofRatio negative numerator denominator).Fits := by
  by_cases none : numerator = 0
  · rw [ofRatio, if_pos none]
    exact fits_zero negative
  · have least := (exponentOf_leads none positive).least
    rw [ofRatio_eq none]
    split
    · split
      · trivial
      next within => exact ⟨by decide, by omega, not_lt.mp within⟩
    next other =>
      split
      · trivial
      next within => exact ⟨lt_of_le_of_ne (significandOf_le none positive) other, least, not_lt.mp within⟩

theorem scaled_of_eq (positive : 0 < denominator) {whole : Nat} {exponent : Int}
    (same : (numerator : ℚ) / denominator = whole * 2 ^ exponent) :
    (scaled numerator denominator exponent).1 = whole * (scaled numerator denominator exponent).2 := by
  have occupied : ((scaled numerator denominator exponent).2 : ℚ) ≠ 0 := by
    exact_mod_cast (scaled_pos exponent positive).ne'
  have quotient := scaled_eq exponent numerator denominator
  rw [same, mul_div_cancel_right₀ _ (two_zpow_pos exponent).ne', div_eq_iff occupied] at quotient
  exact_mod_cast quotient

/-- Where the exponent that is taken divides a quotient into a whole number, there is nothing to round. -/
theorem ofRatio_whole (some : numerator ≠ 0) (positive : 0 < denominator) {whole : Nat}
    (same : (numerator : ℚ) / denominator = whole * 2 ^ exponentOf numerator denominator)
    (greatest : exponentOf numerator denominator ≤ greatestExponent) (negative : Bool) :
    ofRatio negative numerator denominator = .finite negative whole (exponentOf numerator denominator) := by
  have below := (exponentOf_leads some positive).below
  rw [same, add_comm, two_zpow_add, ← cast_twice_normal, mul_lt_mul_iff_left₀ (two_zpow_pos _)] at below
  have bits : whole < 2 * normal := by exact_mod_cast below
  rw [ofRatio_eq some, significandOf, scaled_of_eq positive same, roundEven_mul whole (scaled_pos _ positive),
    if_neg bits.ne, if_neg (not_lt.mpr greatest)]

/-- A quotient that is a significand of 53 bits times a power of two in range is kept as it is. -/
theorem value_ofRatio (positive : 0 < denominator) {significand : Nat} {exponent : Int}
    (bits : significand < 2 * normal) (least : leastExponent ≤ exponent) (greatest : exponent ≤ greatestExponent)
    (same : (numerator : ℚ) / denominator = significand * 2 ^ exponent) (negative : Bool) :
    (ofRatio negative numerator denominator).isFinite = true ∧
      (ofRatio negative numerator denominator).value = signOf negative * (numerator / denominator) := by
  by_cases none : numerator = 0
  · rw [ofRatio, if_pos none, none]
    exact ⟨rfl, by simp [value]⟩
  have within : exponentOf numerator denominator ≤ exponent := (exponentOf_leads none positive).le bits least same
  have whole : (numerator : ℚ) / denominator =
      (significand * 2 ^ (exponent - exponentOf numerator denominator).toNat : Nat) *
        2 ^ exponentOf numerator denominator := by
    rw [Nat.cast_mul, ← two_zpow_toNat (Int.sub_nonneg.mpr within), mul_assoc, ← two_zpow_add, Int.sub_add_cancel, same]
  rw [ofRatio_whole none positive whole (within.trans greatest), value, whole]
  exact ⟨rfl, rfl⟩

end Rounding

section Floor

variable {negative : Bool} {significand : Nat} {exponent : Int}

theorem ceil_eq {numerator denominator : Nat} (positive : 0 < denominator) :
    ⌈(numerator : ℚ) / denominator⌉ = ((numerator + denominator - 1) / denominator : Nat) := by
  have occupied : (0 : ℚ) < denominator := by exact_mod_cast positive
  have remainder := Nat.mod_lt (numerator + denominator - 1) positive
  have division := Nat.div_add_mod (numerator + denominator - 1) denominator
  generalize (numerator + denominator - 1) / denominator = whole at division
  have low : denominator * whole < numerator + denominator := by omega
  have high : numerator ≤ denominator * whole := by omega
  rw [Int.ceil_eq_iff, lt_div_iff₀ occupied, div_le_iff₀ occupied, Int.cast_natCast]
  constructor
  · have below : (denominator * whole : ℚ) < numerator + denominator := by exact_mod_cast low
    linarith
  · have above : (numerator : ℚ) ≤ denominator * whole := by exact_mod_cast high
    linarith

/-- Each whole number next to a number has 53 bits: the number is whole itself, or has fewer bits before its point than
it has altogether. -/
theorem value_ofRatio_whole (fits : (finite negative significand exponent).Fits) {whole : Nat}
    (low : ⌊(significand : ℚ) * 2 ^ exponent⌋ ≤ whole) (high : (whole : Int) ≤ ⌈(significand : ℚ) * 2 ^ exponent⌉) :
    (ofRatio negative whole 1).isFinite = true ∧ (ofRatio negative whole 1).value = signOf negative * whole := by
  obtain ⟨bits, least, greatest⟩ := fits
  rcases lt_or_ge exponent 0 with point | without
  · have fewer : ⌈(significand : ℚ) * 2 ^ exponent⌉ ≤ significand := by
      rw [Int.ceil_le]
      have below : (2 : ℚ) ^ exponent ≤ 1 := zpow_le_one_of_nonpos₀ (by norm_num) point.le
      exact_mod_cast mul_le_of_le_one_right (Nat.cast_nonneg significand) below
    have narrow : whole < 2 * normal := by omega
    have quotient : (whole : ℚ) / (1 : Nat) = whole * 2 ^ (0 : Int) := by simp
    simpa using value_ofRatio Nat.one_pos narrow (by decide) (by decide) quotient negative
  · rw [two_zpow_toNat without, ← Nat.cast_mul, Int.floor_natCast] at low
    rw [two_zpow_toNat without, ← Nat.cast_mul, Int.ceil_natCast] at high
    have same : whole = significand * 2 ^ exponent.toNat := by omega
    have quotient : (whole : ℚ) / (1 : Nat) = significand * 2 ^ exponent := by
      rw [two_zpow_toNat without, same, Nat.cast_one, div_one, Nat.cast_mul]
    simpa using value_ofRatio Nat.one_pos bits least greatest quotient negative

theorem floor_finite (negative : Bool) (significand : Nat) (exponent : Int) :
    (finite negative significand exponent).floor =
      if significand = 0 then .finite negative 0 leastExponent
      else if negative then ofRatio true
        (((ratio significand exponent).1 + (ratio significand exponent).2 - 1) / (ratio significand exponent).2) 1
      else ofRatio false ((ratio significand exponent).1 / (ratio significand exponent).2) 1 := rfl

theorem value_floor {number : Binary64} (fits : number.Fits) (finite : number.isFinite = true) :
    number.floor.isFinite = true ∧ number.floor.value = ⌊number.value⌋ := by
  cases number with
  | nan => cases finite
  | infinity negative => cases finite
  | finite negative significand exponent =>
    have positive := ratio_pos exponent significand
    have quotient := ratio_eq exponent significand
    rw [floor_finite]
    generalize ratio significand exponent = whole at positive quotient
    split
    next none => exact ⟨rfl, by simp [value, none]⟩
    split
    next below =>
      subst below
      have same : ⌈(significand : ℚ) * 2 ^ exponent⌉ = ((whole.1 + whole.2 - 1) / whole.2 : Nat) := by
        rw [← quotient, ceil_eq positive]
      have low := Int.floor_le_ceil ((significand : ℚ) * 2 ^ exponent)
      obtain ⟨kept, number⟩ := value_ofRatio_whole fits (low.trans same.le) same.ge
      refine ⟨kept, number.trans ?_⟩
      rw [value, signOf, if_pos rfl, neg_one_mul, neg_one_mul, Int.floor_neg, same, Int.cast_neg, Int.cast_natCast]
    next above =>
      obtain rfl := Bool.eq_false_of_not_eq_true above
      have same : ⌊(significand : ℚ) * 2 ^ exponent⌋ = (whole.1 / whole.2 : Nat) := by
        rw [← quotient, Rat.floor_natCast_div_natCast, Int.natCast_div]
      have high := Int.floor_le_ceil ((significand : ℚ) * 2 ^ exponent)
      obtain ⟨kept, number⟩ := value_ofRatio_whole fits same.le (same ▸ high)
      refine ⟨kept, number.trans ?_⟩
      rw [value, signOf, if_neg Bool.false_ne_true, one_mul, one_mul, same, Int.cast_natCast]

theorem floor_fraction {number : Binary64} (above : 0 < number.value) (below : number.value < 1) :
    number.floor = zero := by
  cases number with
  | nan => exact absurd above (lt_irrefl _)
  | infinity negative => exact absurd above (lt_irrefl _)
  | finite negative significand exponent =>
    have positive := ratio_pos exponent significand
    rw [value, ← ratio_eq] at above below
    rw [floor_finite]
    generalize ratio significand exponent = whole at above below positive
    cases negative with
    | true =>
      have quotient : (0 : ℚ) ≤ whole.1 / whole.2 := by positivity
      rw [signOf, if_pos rfl] at above
      linarith
    | false =>
      rw [signOf, if_neg Bool.false_ne_true, one_mul, div_lt_one (by exact_mod_cast positive)] at below
      have less : whole.1 < whole.2 := by exact_mod_cast below
      rw [Nat.div_eq_of_lt less]
      split <;> rfl

end Floor

section Reading

variable {negative : Bool} {t : Text} {number : Binary64}

theorem fits_ofDecimal (negative : Bool) (digits : Nat) (exponent : Int) :
    (ofDecimal negative digits exponent).Fits := by
  rw [ofDecimal]
  split
  · exact fits_zero negative
  · split
    · trivial
    · split
      · exact fits_zero negative
      · split
        · exact fits_ofRatio Nat.one_pos negative
        · exact fits_ofRatio (Nat.pow_pos (by decide)) negative

theorem fits_readUnsigned? (read : readUnsigned? negative t = some number) : number.Fits := by
  obtain ⟨⟨digits, places, rest⟩, _, read⟩ := Option.bind_eq_some_iff.mp read
  cases rest with
  | nil =>
    obtain rfl := Option.some.inj read
    exact fits_ofDecimal _ _ _
  | cons u more =>
    dsimp only at read
    split at read
    · obtain ⟨exponent, _, read⟩ := Option.bind_eq_some_iff.mp read
      obtain rfl := Option.some.inj read
      exact fits_ofDecimal _ _ _
    · cases read

theorem fits_readSigned? (read : readSigned? t = some number) : number.Fits := by
  have unsigned : ∀ (negative : Bool) (t : Text),
      (if t = units "Infinity" then some (.infinity negative) else readUnsigned? negative t) = some number →
        number.Fits := by
    intro negative t read
    split at read
    · obtain rfl := Option.some.inj read
      trivial
    · exact fits_readUnsigned? read
  unfold readSigned? at read
  dsimp only at read
  split at read
  · exact unsigned _ _ read
  · exact unsigned _ _ read
  · exact unsigned _ _ read

theorem fits_readBase? {base : Nat} (read : readBase? base t = some number) : number.Fits := by
  rw [readBase?] at read
  split at read
  · cases read
  · obtain ⟨value, _, read⟩ := Option.bind_eq_some_iff.mp read
    obtain rfl := Option.some.inj read
    exact fits_ofRatio Nat.one_pos false

theorem fits_ofText (t : Text) : (ofText t).Fits := by
  have given : ∀ read : Option Binary64, (∀ number, read = some number → number.Fits) → (read.getD nan).Fits := by
    intro read fits
    cases read with
    | none => trivial
    | some number => exact fits number rfl
  rw [ofText]
  split
  · exact fits_zero false
  · split
    · exact given _ fun _ => fits_readBase?
    · exact given _ fun _ => fits_readSigned?

end Reading

end Emend.Binary64
