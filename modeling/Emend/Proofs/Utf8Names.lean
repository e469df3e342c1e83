import Emend.Proofs.LosslessCoding
import Emend.Proofs.PairedHalves

/-! UTF-8 under all of its names. Two spellings ask for strict decoding, every other one for lenient decoding and a
check of what the text encodes to. Both accept the same bytes and read the same text from them, and under each name the
texts that can be written are the well-formed ones. -/

namespace Emend

open Text

/-- Bytes that are nothing but forms of scalar values, one after the other, and the text of these values. -/
def Utf8.Spells (bytes : Bytes) (t : Text) : Prop :=
  ∃ codes, (∀ code ∈ codes, IsScalar code) ∧ codes.flatMap encodeCode = bytes ∧ ofCodes codes = t

theorem Utf8.spells_iff {bytes : Bytes} {t : Text} : Spells bytes t ↔ encode t = bytes ∧ wellFormed t = true := by
  rw [← repair_eq_self_iff]
  constructor
  · rintro ⟨codes, scalars, spelled, rfl⟩
    rw [← decodeStrict?_eq_some_iff, decodeStrict?, scan_eq_map_some_iff.mpr ⟨scalars, spelled⟩]
    simp
  · rintro ⟨spelled, whole⟩
    exact ⟨repairedCodes t, fun _ => isScalar_of_mem_repairedCodes, (encode_eq t).symm.trans spelled, whole⟩

section

variable {name : Text} (named : Encoding.named? name = some .utf8)
include named

/-- Whatever name UTF-8 goes by, a text is read from the bytes that spell it. -/
theorem decodeLosslessly_utf8_iff {bytes : Bytes} {file t : Text} :
    decodeLosslessly bytes name file = .ok t ↔ Utf8.Spells bytes t := by
  rw [decodeLosslessly_eq_ok_iff, encodeNamed_of_named named, decodeNamed_of_named named, Except.ok.injEq,
    Except.ok.injEq, Utf8.spells_iff, ← repair_eq_self_iff]
  apply and_congr_right
  rintro rfl
  rw [Encoding.decode, Encoding.encode, Utf8.decode_encode]

theorem encodeLosslessly_utf8_iff {bytes : Bytes} {file t : Text} :
    encodeLosslessly t name file = .ok bytes ↔ Utf8.encode t = bytes ∧ wellFormed t = true := by
  rw [encodeLosslessly_eq_ok_iff, ← @decodeLosslessly_eq_ok_iff _ _ file, decodeLosslessly_utf8_iff named,
    Utf8.spells_iff]

theorem encodeLosslessly_wellFormed {t : Text} (proper : wellFormed t = true) (file : Text) :
    encodeLosslessly t name file = .ok (Utf8.encode t) :=
  (encodeLosslessly_utf8_iff named).mpr ⟨rfl, proper⟩

theorem encodeLosslessly_malformed {t : Text} (malformed : ¬ wellFormed t = true) (file : Text) :
    encodeLosslessly t name file = .error (.unencodable file name) := by
  have lost : Utf8.decode (Utf8.encode t) ≠ t := by
    rw [Utf8.decode_encode]
    exact mt repair_eq_self_iff.mp malformed
  simp only [encodeLosslessly, encodeNamed_of_named named, decodeNamed_of_named named, bind, Except.bind]
  exact if_neg lost

/-- Bytes that spell no text are refused, by strict decoding as no UTF-8 and else as lossy. -/
theorem decodeLosslessly_unspelled {bytes : Bytes} (unspelled : ∀ t, ¬ Utf8.Spells bytes t) (file : Text) :
    decodeLosslessly bytes name file = .error (if isStrictName name then .notUtf8 file else .lossy file name) := by
  have none (t : Text) : decodeLosslessly bytes name file ≠ .ok t :=
    mt (decodeLosslessly_utf8_iff named).mp (unspelled t)
  rw [decodeLosslessly] at none ⊢
  split
  next strict =>
    rw [if_pos strict] at none
    cases read : Utf8.decodeStrict? bytes with
    | none => rfl
    | some t => exact absurd (by rw [read]) (none t)
  next lenient =>
    rw [if_neg lenient] at none
    simp only [decodeNamed_of_named named, encodeNamed_of_named named, bind, Except.bind] at none ⊢
    split
    next same => exact absurd (if_pos same) (none _)
    next => rfl

end

/-- Strict decoding and lenient decoding with its check read the same text from the same bytes, which are the forms of
scalar values in a row; all other bytes are refused by both. Neither the replacement character nor a byte order mark
among the bytes makes a difference. -/
theorem decodeLosslessly_strict_iff_lenient (bytes : Bytes) (file : Text) :
    isStrictName (units "utf8") = true ∧ isStrictName (units "UTF8") = false ∧
      (∀ t, decodeLosslessly bytes (units "utf8") file = .ok t ↔ decodeLosslessly bytes (units "UTF8") file = .ok t) ∧
      (∀ t, decodeLosslessly bytes (units "utf8") file = .ok t ↔ Utf8.Spells bytes t) ∧
      ((∀ t, ¬ Utf8.Spells bytes t) →
        decodeLosslessly bytes (units "utf8") file = .error (.notUtf8 file) ∧
          decodeLosslessly bytes (units "UTF8") file = .error (.lossy file (units "UTF8"))) := by
  have strict : Encoding.named? (units "utf8") = some .utf8 := by decide +kernel
  have lenient : Encoding.named? (units "UTF8") = some .utf8 := by decide +kernel
  refine ⟨by decide, by decide, fun t => ?_, fun t => decodeLosslessly_utf8_iff strict, fun unspelled => ⟨?_, ?_⟩⟩
  · rw [decodeLosslessly_utf8_iff strict, decodeLosslessly_utf8_iff lenient]
  · exact decodeLosslessly_unspelled strict unspelled file
  · exact decodeLosslessly_unspelled lenient unspelled file

end Emend
