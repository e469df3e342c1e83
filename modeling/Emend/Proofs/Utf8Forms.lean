import Mathlib.Data.List.Basic
import Emend.Encoding.Utf8
import Emend.Proofs.TextRepair

/-! Each scalar value has one form in UTF-8, and each form is read back as its scalar value, so the bytes
that are UTF-8 throughout and the texts in which surrogates stand in pairs only correspond one to one. -/

namespace Emend.Text

/-- A code point that has a form in UTF-8: none beyond the last one, and no surrogate. -/
def IsScalar (code : Nat) : Prop := code < 0xD800 ∨ 0xDFFF < code ∧ code < 0x110000

theorem isSurrogate_eq_false {code : Nat} : isSurrogate code = false ↔ code < 0xD800 ∨ 0xDFFF < code := by
  rw [isSurrogate, Bool.and_eq_false_iff, decide_eq_false_iff_not, decide_eq_false_iff_not, Nat.not_le, Nat.not_le]

theorem isScalar_of_mem_codes {t : Text} {code : Nat} (member : code ∈ codes t)
    (proper : isSurrogate code = false) : IsScalar code := by
  rw [isSurrogate_eq_false] at proper
  suffices within : code < 0x110000 by
    unfold IsScalar
    omega
  clear proper
  induction t with
  | nil => cases member
  | cons u t ih =>
    have unit := u.toNat_lt
    rw [codes, List.foldr_cons, ← codes] at member
    generalize codes t = after at member ih
    cases after with
    | nil =>
      obtain rfl := List.mem_singleton.mp member
      omega
    | cons next after =>
      rw [codeStep] at member
      split at member
      next pair =>
        simp only [Bool.and_eq_true, isHighSurrogate, isLowSurrogate, decide_eq_true_eq,
          UInt16.le_iff_toNat_le, UInt16.reduceToNat] at pair
        rcases List.mem_cons.mp member with same | later
        · rw [same]
          unfold pairValue
          omega
        · exact ih (List.mem_cons_of_mem _ later)
      next =>
        rcases List.mem_cons.mp member with rfl | later
        · omega
        · exact ih later

/-- A scalar value is read back from its units, whatever stands after them. -/
theorem codes_ofCode_append {code : Nat} (scalar : IsScalar code) (t : Text) :
    codes (ofCode code ++ t) = code :: codes t := by
  unfold IsScalar at scalar
  rw [ofCode]
  split
  next small =>
    have value : (UInt16.ofNat code).toNat = code := by
      rw [UInt16.toNat_ofNat', Nat.mod_eq_of_lt small]
    have flat : isHighSurrogate (UInt16.ofNat code) = false := by
      rw [isHighSurrogate, Bool.and_eq_false_iff, decide_eq_false_iff_not, decide_eq_false_iff_not,
        UInt16.le_iff_toNat_le, UInt16.le_iff_toNat_le, value]
      simp only [UInt16.reduceToNat]
      omega
    rw [List.singleton_append, codes_cons_flat flat, value]
  next large =>
    have first : (UInt16.ofNat (0xD800 + (code - 0x10000) / 0x400)).toNat = 0xD800 + (code - 0x10000) / 0x400 := by
      rw [UInt16.toNat_ofNat', Nat.mod_eq_of_lt (by omega)]
    have second : (UInt16.ofNat (0xDC00 + (code - 0x10000) % 0x400)).toNat = 0xDC00 + (code - 0x10000) % 0x400 := by
      rw [UInt16.toNat_ofNat', Nat.mod_eq_of_lt (by omega)]
    have high : isHighSurrogate (UInt16.ofNat (0xD800 + (code - 0x10000) / 0x400)) = true := by
      simp only [isHighSurrogate, Bool.and_eq_true, decide_eq_true_eq, UInt16.le_iff_toNat_le, first, UInt16.reduceToNat]
      omega
    have low : isLowSurrogate (UInt16.ofNat (0xDC00 + (code - 0x10000) % 0x400)) = true := by
      simp only [isLowSurrogate, Bool.and_eq_true, decide_eq_true_eq, UInt16.le_iff_toNat_le, second, UInt16.reduceToNat]
      omega
    have value : pairValue (UInt16.ofNat (0xD800 + (code - 0x10000) / 0x400))
        (UInt16.ofNat (0xDC00 + (code - 0x10000) % 0x400)) = code := by
      unfold pairValue
      rw [first, second]
      omega
    exact (codes_pair high low t).trans (congrArg (· :: codes t) value)

theorem codes_ofCodes {cs : List Nat} (scalars : ∀ code ∈ cs, IsScalar code) : codes (ofCodes cs) = cs := by
  induction cs with
  | nil => rfl
  | cons code cs ih =>
    show codes (ofCode code ++ ofCodes cs) = _
    rw [codes_ofCode_append (scalars code List.mem_cons_self),
      ih fun other member => scalars other (List.mem_cons_of_mem _ member)]

def repairedCodes (t : Text) : List Nat :=
  (codes t).map fun code => if isSurrogate code then replacementCode else code

theorem isScalar_of_mem_repairedCodes {t : Text} {code : Nat} (member : code ∈ repairedCodes t) : IsScalar code := by
  obtain ⟨own, among, rfl⟩ := List.mem_map.mp member
  split
  next => exact .inr ⟨by decide, by decide⟩
  next proper => exact isScalar_of_mem_codes among (Bool.eq_false_iff.mpr proper)

end Emend.Text

namespace Emend.Utf8

open Text

/-- The bytes after the first add their six bits each, the first of them within bounds of its own. -/
def Continues : (low high : UInt8) → (code : Nat) → Bytes → (value : Nat) → Prop
  | _, _, code, [], value => value = code
  | low, high, code, b :: tail, value =>
    isWithin low high b = true ∧ Continues 0x80 0xBF (code * 64 + (b.toNat - 0x80)) tail value

theorem readTail_eq_some_iff {needed : Nat} {low high : UInt8} {code value count : Nat} {bytes : Bytes} :
    readTail needed low high code bytes = (some value, count) ↔ ∃ tail after, bytes = tail ++ after ∧
      tail.length = needed ∧ count = needed ∧ Continues low high code tail value := by
  induction needed generalizing low high code bytes count with
  | zero =>
    rw [readTail, Prod.mk.injEq, Option.some.injEq]
    constructor
    · rintro ⟨rfl, rfl⟩
      exact ⟨[], bytes, rfl, rfl, rfl, rfl⟩
    · rintro ⟨tail, after, -, size, rfl, continues⟩
      obtain rfl := List.length_eq_zero_iff.mp size
      exact ⟨continues.symm, rfl⟩
  | succ needed ih =>
    cases bytes with
    | nil =>
      rw [readTail]
      constructor
      · intro none
        cases none
      · rintro ⟨tail, after, empty, size, -, -⟩
        obtain ⟨rfl, -⟩ := List.nil_eq_append_iff.mp empty
        cases size
    | cons b rest =>
      rw [readTail]
      split
      next inside =>
        constructor
        · intro read
          obtain ⟨first, rfl⟩ := Prod.mk.inj read
          obtain ⟨tail, after, rfl, size, count, continues⟩ := ih.mp (Prod.ext first rfl)
          exact ⟨b :: tail, after, rfl, congrArg (· + 1) size, congrArg (· + 1) count, inside, continues⟩
        · rintro ⟨tail, after, whole, size, rfl, continues⟩
          cases tail with
          | nil => cases size
          | cons first tail =>
            obtain ⟨rfl, same⟩ := List.cons.inj whole
            rw [ih.mpr ⟨tail, after, same, Nat.succ.inj size, rfl, continues.2⟩]
      next outside =>
        constructor
        · intro none
          cases none
        · rintro ⟨tail, after, whole, size, -, continues⟩
          cases tail with
          | nil => cases size
          | cons first tail =>
            obtain ⟨rfl, rfl⟩ := List.cons.inj whole
            exact absurd continues.1 outside

theorem isWithin_iff {low high b : UInt8} :
    isWithin low high b = true ↔ low.toNat ≤ b.toNat ∧ b.toNat ≤ high.toNat := by
  simp only [isWithin, Bool.and_eq_true, decide_eq_true_eq, UInt8.le_iff_toNat_le]

theorem ofNat_eq_iff {n : Nat} {b : UInt8} (small : n < 256) : UInt8.ofNat n = b ↔ n = b.toNat := by
  rw [← UInt8.toNat_inj, UInt8.toNat_ofNat', Nat.mod_eq_of_lt small]

private theorem ite_le_iff {p : Prop} [Decidable p] {a b n : Nat} :
    (if p then a else b) ≤ n ↔ (p → a ≤ n) ∧ (¬ p → b ≤ n) := by
  split <;> simp [*]

private theorem le_ite_iff {p : Prop} [Decidable p] {a b n : Nat} :
    n ≤ (if p then a else b) ↔ (p → n ≤ a) ∧ (¬ p → n ≤ b) := by
  split <;> simp [*]

theorem spelled_of_readSequence {b : UInt8} {rest : Bytes} {code count : Nat}
    (read : readSequence b rest = (some code, count)) :
    IsScalar code ∧ ∃ tail after, rest = tail ++ after ∧ tail.length = count ∧ encodeCode code = b :: tail := by
  have byte := b.toNat_lt
  unfold readSequence at read
  unfold IsScalar
  simp only [UInt8.lt_iff_toNat_lt, ← UInt8.toNat_inj, UInt8.reduceToNat] at read
  split at read
  next ascii =>
    obtain ⟨rfl, rfl⟩ : b.toNat = code ∧ 0 = count := by simpa using read
    refine ⟨.inl (by omega), [], rest, rfl, rfl, ?_⟩
    rw [encodeCode, if_pos ascii, UInt8.ofNat_toNat]
  next =>
  split at read
  next => cases read
  next =>
  split at read
  next =>
    obtain ⟨tail, after, rfl, size, rfl, continues⟩ := readTail_eq_some_iff.mp read
    obtain ⟨c, rfl⟩ := List.length_eq_one_iff.mp size
    simp only [Continues, isWithin_iff, UInt8.reduceToNat] at continues
    refine ⟨by omega, [c], after, rfl, rfl, ?_⟩
    rw [encodeCode, if_neg (by omega), if_pos (by omega)]
    simp (disch := omega) only [List.cons.injEq, ofNat_eq_iff, and_true]
    omega
  next =>
  split at read
  next =>
    obtain ⟨tail, after, rfl, size, rfl, continues⟩ := readTail_eq_some_iff.mp read
    obtain ⟨c, d, rfl⟩ := List.length_eq_two.mp size
    simp only [Continues, isWithin_iff, apply_ite UInt8.toNat, ite_le_iff, le_ite_iff, UInt8.reduceToNat] at continues
    refine ⟨by omega, [c, d], after, rfl, rfl, ?_⟩
    rw [encodeCode, if_neg (by omega), if_neg (by omega), if_pos (by omega)]
    simp (disch := omega) only [List.cons.injEq, ofNat_eq_iff, and_true]
    omega
  next =>
  split at read
  next =>
    obtain ⟨tail, after, rfl, size, rfl, continues⟩ := readTail_eq_some_iff.mp read
    obtain ⟨c, d, e, rfl⟩ := List.length_eq_three.mp size
    simp only [Continues, isWithin_iff, apply_ite UInt8.toNat, ite_le_iff, le_ite_iff, UInt8.reduceToNat] at continues
    refine ⟨by omega, [c, d, e], after, rfl, rfl, ?_⟩
    rw [encodeCode, if_neg (by omega), if_neg (by omega), if_neg (by omega)]
    simp (disch := omega) only [List.cons.injEq, ofNat_eq_iff, and_true]
    omega
  next => cases read

theorem readSequence_of_encodeCode {code : Nat} {b : UInt8} {tail : Bytes} (scalar : IsScalar code)
    (spelled : encodeCode code = b :: tail) (after : Bytes) :
    readSequence b (tail ++ after) = (some code, tail.length) := by
  unfold IsScalar at scalar
  unfold encodeCode at spelled
  unfold readSequence
  simp only [UInt8.lt_iff_toNat_lt, ← UInt8.toNat_inj, UInt8.reduceToNat]
  split at spelled
  next ascii =>
    simp (disch := omega) only [List.cons.injEq, ofNat_eq_iff] at spelled
    obtain ⟨same, rfl⟩ := spelled
    rw [if_pos (by omega), ← same]
    rfl
  next =>
  split at spelled
  next =>
    simp (disch := omega) only [List.cons.injEq, ofNat_eq_iff] at spelled
    obtain ⟨first, rfl⟩ := spelled
    rw [if_neg (by omega), if_neg (by omega), if_pos (by omega)]
    refine readTail_eq_some_iff.mpr ⟨_, after, rfl, rfl, rfl, ?_⟩
    simp (disch := omega) only [Continues, isWithin_iff, UInt8.toNat_ofNat', Nat.mod_eq_of_lt, UInt8.reduceToNat]
    omega
  next =>
  split at spelled
  next =>
    simp (disch := omega) only [List.cons.injEq, ofNat_eq_iff] at spelled
    obtain ⟨first, rfl⟩ := spelled
    rw [if_neg (by omega), if_neg (by omega), if_neg (by omega), if_pos (by omega)]
    refine readTail_eq_some_iff.mpr ⟨_, after, rfl, rfl, rfl, ?_⟩
    simp (disch := omega) only [Continues, isWithin_iff, UInt8.toNat_ofNat', Nat.mod_eq_of_lt,
      apply_ite UInt8.toNat, ite_le_iff, le_ite_iff, UInt8.reduceToNat]
    omega
  next =>
    simp (disch := omega) only [List.cons.injEq, ofNat_eq_iff] at spelled
    obtain ⟨first, rfl⟩ := spelled
    rw [if_neg (by omega), if_neg (by omega), if_neg (by omega), if_neg (by omega), if_pos (by omega)]
    refine readTail_eq_some_iff.mpr ⟨_, after, rfl, rfl, rfl, ?_⟩
    simp (disch := omega) only [Continues, isWithin_iff, UInt8.toNat_ofNat', Nat.mod_eq_of_lt,
      apply_ite UInt8.toNat, ite_le_iff, le_ite_iff, UInt8.reduceToNat]
    omega

theorem scanOnto_cons (read : List (Option Nat)) (b : UInt8) (rest : Bytes) :
    scanOnto read (b :: rest) =
      scanOnto ((readSequence b rest).1 :: read) (rest.drop (readSequence b rest).2) := by
  rw [scanOnto]

theorem scanOnto_eq (read : List (Option Nat)) (bytes : Bytes) :
    scanOnto read bytes = scanOnto [] bytes ++ read := by
  induction size : bytes.length using Nat.strongRecOn generalizing read bytes with
  | ind size ih =>
    cases bytes with
    | nil => rw [scanOnto, scanOnto, List.nil_append]
    | cons b rest =>
      subst size
      have shorter : (rest.drop (readSequence b rest).2).length < (b :: rest).length := by
        rw [List.length_drop, List.length_cons]
        omega
      rw [scanOnto_cons, scanOnto_cons, ih _ shorter _ _ rfl, ih _ shorter [_] _ rfl, List.append_assoc]
      rfl

@[simp] theorem scan_nil : scan [] = [] := by
  rw [scan, scanOnto, List.reverse_nil]

theorem scan_cons (b : UInt8) (rest : Bytes) :
    scan (b :: rest) = (readSequence b rest).1 :: scan (rest.drop (readSequence b rest).2) := by
  rw [scan, scanOnto_cons, scanOnto_eq, List.reverse_append]
  rfl

theorem scan_encodeCode {code : Nat} (scalar : IsScalar code) (rest : Bytes) :
    scan (encodeCode code ++ rest) = some code :: scan rest := by
  cases spelled : encodeCode code with
  | nil =>
    unfold encodeCode at spelled
    split_ifs at spelled
  | cons b tail =>
    rw [List.cons_append, scan_cons, readSequence_of_encodeCode scalar spelled, List.drop_left]

/-- Scalar values are spelled one after the other, and scanned so. -/
theorem scan_encodeCodes {codes : List Nat} (scalars : ∀ code ∈ codes, IsScalar code) :
    scan (codes.flatMap encodeCode) = codes.map some := by
  induction codes with
  | nil => exact scan_nil
  | cons code codes ih =>
    rw [List.flatMap_cons, scan_encodeCode (scalars code List.mem_cons_self),
      ih fun other member => scalars other (List.mem_cons_of_mem _ member), List.map_cons]

/-- Bytes in which every sequence encodes a code point are spelled by these code points, and by no
others: each has one form only. -/
theorem scan_eq_map_some_iff {bytes : Bytes} {codes : List Nat} :
    scan bytes = codes.map some ↔ (∀ code ∈ codes, IsScalar code) ∧ codes.flatMap encodeCode = bytes := by
  refine ⟨fun scanned => ?_, fun ⟨scalars, spelled⟩ => spelled ▸ scan_encodeCodes scalars⟩
  induction codes generalizing bytes with
  | nil =>
    cases bytes with
    | nil => exact ⟨fun _ member => absurd member List.not_mem_nil, rfl⟩
    | cons b rest =>
      rw [scan_cons] at scanned
      cases scanned
  | cons code codes ih =>
    cases bytes with
    | nil =>
      rw [scan_nil] at scanned
      cases scanned
    | cons b rest =>
      rw [scan_cons, List.map_cons] at scanned
      obtain ⟨first, later⟩ := List.cons.inj scanned
      obtain ⟨scalar, tail, after, rfl, -, spelled⟩ := spelled_of_readSequence (Prod.ext first rfl)
      rw [readSequence_of_encodeCode scalar spelled, List.drop_left] at later
      obtain ⟨scalars, others⟩ := ih later
      refine ⟨List.forall_mem_cons.mpr ⟨scalar, scalars⟩, ?_⟩
      rw [List.flatMap_cons, spelled, others, List.cons_append]

theorem encode_eq (t : Text) : encode t = (repairedCodes t).flatMap encodeCode := by
  rw [encode, repairedCodes, List.flatMap_map]

/-- A text is encoded as its repair, so that is what its bytes decode to. -/
theorem scan_encode (t : Text) : scan (encode t) = (repairedCodes t).map some := by
  rw [encode_eq]
  exact scan_encodeCodes fun _ => isScalar_of_mem_repairedCodes

theorem decode_encode (t : Text) : decode (encode t) = repair t := by
  rw [decode, scan_encode, List.map_map]
  exact congrArg ofCodes (List.map_id _)

theorem decodeStrict?_encode (t : Text) : decodeStrict? (encode t) = some (repair t) := by
  have all : ((repairedCodes t).map some).all Option.isSome = true := by simp
  simp only [decodeStrict?, scan_encode, all, if_true, List.filterMap_map]
  exact congrArg (some ∘ ofCodes) (List.filterMap_some)

private theorem eq_map_some {items : List (Option Nat)} (all : items.all Option.isSome = true) :
    items = (items.filterMap id).map some := by
  induction items with
  | nil => rfl
  | cons item items ih =>
    rw [List.all_cons, Bool.and_eq_true] at all
    obtain ⟨value, rfl⟩ := Option.isSome_iff_exists.mp all.1
    show some value :: items = some value :: (items.filterMap id).map some
    rw [← ih all.2]

/-- Strict decoding accepts what encodes to the same bytes: the texts without surrogates outside of
pairs, each in its only form. -/
theorem decodeStrict?_eq_some_iff {bytes : Bytes} {t : Text} :
    decodeStrict? bytes = some t ↔ encode t = bytes ∧ repair t = t := by
  constructor
  · intro decoded
    simp only [decodeStrict?] at decoded
    split at decoded
    next all =>
      obtain rfl := Option.some.inj decoded
      obtain ⟨scalars, spelled⟩ := scan_eq_map_some_iff.mp (eq_map_some all)
      have own := codes_ofCodes scalars
      have proper : repairedCodes (ofCodes ((scan bytes).filterMap id)) = (scan bytes).filterMap id := by
        rw [repairedCodes, own]
        conv => rhs; rw [← List.map_id ((scan bytes).filterMap id)]
        apply List.map_congr_left
        intro code member
        have scalar := scalars code member
        rw [if_neg]
        · rfl
        · rw [Bool.not_eq_true, isSurrogate_eq_false]
          exact scalar.imp id And.left
      exact ⟨by rw [encode_eq, proper, spelled], congrArg ofCodes proper⟩
    next => cases decoded
  · rintro ⟨rfl, whole⟩
    rw [decodeStrict?_encode, whole]

theorem length_encode_append (t : Text) {tail : Text} (ascii : ∀ u ∈ tail, u.toNat < 0x80) :
    (encode (t ++ tail)).length = (encode t).length + tail.length := by
  have half {u : UInt16} (small : u.toNat < 0x80) : isHalf u = false := by
    rw [← isSurrogate_toNat, isSurrogate_eq_false]
    omega
  induction tail generalizing t with
  | nil => rw [List.append_nil, List.length_nil, Nat.add_zero]
  | cons u tail ih =>
    have small := ascii u List.mem_cons_self
    have one : (encode (t ++ [u])).length = (encode t).length + 1 := by
      have single : codes [u] = [u.toNat] := rfl
      rw [encode, encode, codes_append_cons (half small), single, List.flatMap_append, List.length_append,
        List.flatMap_singleton, isSurrogate_toNat, half small, if_neg Bool.false_ne_true, encodeCode, if_pos small]
      rfl
    rw [← List.singleton_append, ← List.append_assoc, ih (t ++ [u]) fun v later => ascii v (List.mem_cons_of_mem u later),
      one, List.length_append, List.length_singleton]
    omega

end Emend.Utf8
