import Emend.Proofs.LosslessCoding

/-! The length at which a text is reckoned under an encoding, and the bytes that are written for it. For the spellings of
bytes the two come from different formulas, and they agree on every text that passes the check of its encoding. -/

namespace Emend

open Text

theorem Hex.length_spell (bytes : Bytes) : (spell bytes).length = 2 * bytes.length := by
  induction bytes with
  | nil => rfl
  | cons byte bytes ih =>
    change (_ :: _ :: spell bytes).length = 2 * (bytes.length + 1)
    rw [List.length_cons, List.length_cons, ih]
    omega

namespace Base64

theorem digit_ne_equal : ∀ url, ∀ value < 64, digit url value ≠ equal := by decide +kernel

theorem equal_not_mem {url : Bool} {values : List Nat} (small : ∀ value ∈ values, value < 64) :
    equal ∉ values.map (digit url) := by
  intro member
  obtain ⟨value, among, same⟩ := List.mem_map.mp member
  exact digit_ne_equal url value (small value among) same

theorem exists_padding (url : Bool) {count : Nat} (few : count ≤ 2) :
    ∃ pad ≤ 2, padding url count = List.replicate pad equal := by
  cases url with
  | false => exact ⟨count, few, rfl⟩
  | true => exact ⟨0, Nat.zero_le 2, rfl⟩

/-- A spelling is its digits, with no equals sign among them, and at most two of those at its end. -/
theorem exists_digits (url : Bool) (bytes : Bytes) :
    ∃ digits pad, spell url bytes = digits ++ List.replicate pad equal ∧ equal ∉ digits ∧ pad ≤ 2 ∧
      digits.length = (4 * bytes.length + 2) / 3 := by
  fun_induction spell url bytes with
  | case1 => exact ⟨[], 0, rfl, List.not_mem_nil, Nat.zero_le 2, rfl⟩
  | case2 a =>
    have below := a.toNat_lt
    obtain ⟨pad, few, padded⟩ := exists_padding url (Nat.le_refl 2)
    rw [padded]
    refine ⟨_, pad, rfl, @equal_not_mem url [a.toNat / 4, a.toNat % 4 * 16] ?_, few, by simp⟩
    simp only [List.mem_cons, List.not_mem_nil, or_false, forall_eq_or_imp, forall_eq]
    omega
  | case3 a b =>
    have below := a.toNat_lt
    have belowToo := b.toNat_lt
    obtain ⟨pad, few, padded⟩ := exists_padding url (Nat.le_succ 1)
    rw [padded]
    refine ⟨_, pad, rfl, @equal_not_mem url [a.toNat / 4, a.toNat % 4 * 16 + b.toNat / 16, b.toNat % 16 * 4] ?_, few,
      by simp⟩
    simp only [List.mem_cons, List.not_mem_nil, or_false, forall_eq_or_imp, forall_eq]
    omega
  | case4 a b c rest ih =>
    have below := a.toNat_lt
    have belowToo := b.toNat_lt
    have last := c.toNat_lt
    obtain ⟨digits, pad, spelled, free, few, length⟩ := ih
    have group : equal ∉ [a.toNat / 4, a.toNat % 4 * 16 + b.toNat / 16, b.toNat % 16 * 4 + c.toNat / 64,
        c.toNat % 64].map (digit url) := by
      apply equal_not_mem
      simp only [List.mem_cons, List.not_mem_nil, or_false, forall_eq_or_imp, forall_eq]
      omega
    refine ⟨_, pad, ?_, fun among => (List.mem_append.mp among).elim group free, few, ?_⟩
    · rw [spelled, List.append_assoc]
      rfl
    · simp only [List.length_append, List.length_map, List.length_cons, List.length_nil, length]
      omega

theorem unpaddedLength_spell (url : Bool) (bytes : Bytes) :
    Encoding.unpaddedLength (spell url bytes) = (4 * bytes.length + 2) / 3 := by
  obtain ⟨digits, pad, spelled, free, few, length⟩ := exists_digits url bytes
  have tail : (List.replicate pad equal ++ digits.reverse).takeWhile (· == equal) = List.replicate pad equal := by
    rw [List.takeWhile_append_of_pos (fun unit among => beq_iff_eq.mpr (List.eq_of_mem_replicate among))]
    cases back : digits.reverse with
    | nil => rw [List.takeWhile_nil, List.append_nil]
    | cons last rest =>
      have among : last ∈ digits := List.mem_reverse.mp (back ▸ List.mem_cons_self)
      have other : (last == equal) = false := beq_eq_false_iff_ne.mpr fun same => free (same ▸ among)
      rw [List.takeWhile_cons, if_neg (ne_true_of_eq_false other), List.append_nil]
  rw [Encoding.unpaddedLength, spelled, List.reverse_append, List.reverse_replicate, tail, List.length_append,
    List.length_replicate, Nat.min_eq_right few, Nat.add_sub_cancel, length]

end Base64

/-- A text that comes back from its bytes is reckoned at as many bytes as there are. -/
theorem Encoding.byteLength_eq {encoding : Encoding} {t : Text} (back : encoding.decode (encoding.encode t) = t) :
    encoding.byteLength t = (encoding.encode t).length := by
  cases encoding with
  | utf8 => rfl
  | utf16 => simp [byteLength, encode, List.length_flatMap, Nat.mul_comm]
  | latin1 | ascii => exact (List.length_map _).symm
  | hex =>
    have length := congrArg List.length back
    rw [decode, Hex.length_spell] at length
    rw [byteLength]
    omega
  | base64 | base64Url =>
    have length := congrArg unpaddedLength back
    rw [decode, Base64.unpaddedLength_spell] at length
    rw [byteLength]
    omega

/-- What is written for a text has the length at which the text is reckoned, under every name of an encoding. -/
theorem byteLengthNamed_eq {bytes : Bytes} {t name file : Text} (holds : encodeLosslessly t name file = .ok bytes) :
    byteLengthNamed name t = bytes.length := by
  obtain ⟨encoded, decoded⟩ := encodeLosslessly_eq_ok_iff.mp holds
  rw [byteLengthNamed]
  cases named : Encoding.named? name with
  | none =>
    rw [encodeNamed, named] at encoded
    split at encoded
    · exact congrArg List.length (Except.ok.inj encoded)
    · cases encoded
  | some encoding =>
    rw [encodeNamed_of_named named] at encoded
    rw [decodeNamed_of_named named] at decoded
    obtain rfl := Except.ok.inj encoded
    exact Encoding.byteLength_eq (Except.ok.inj decoded)

end Emend
