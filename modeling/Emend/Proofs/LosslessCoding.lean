import Emend.Corpus.Event
import Emend.Corpus.File
import Emend.Proofs.ExpressionParse
import Emend.Proofs.Utf8Forms

/-! Reading a file and writing it back are inverse to each other. Both sides accept exactly the bytes and
texts that encode and decode into one another, although the one checks the bytes and the other the text,
and although UTF-8 is checked by strict decoding when it is read. -/

namespace Emend

open Text
open Expression (bind_eq_ok)

theorem named_of_isStrictName {name : Text} (strict : isStrictName name = true) :
    name.isEmpty = false ∧ Encoding.named? name = some .utf8 := by
  rw [isStrictName, Bool.or_eq_true, beq_iff_eq, beq_iff_eq] at strict
  rcases strict with rfl | rfl <;> exact ⟨by decide, by decide +kernel⟩

theorem decodeNamed_of_named {name : Text} {encoding : Encoding}
    (named : Encoding.named? name = some encoding) (bytes : Bytes) :
    decodeNamed name bytes = .ok (encoding.decode bytes) := by
  rw [decodeNamed, named]
  split
  next empty =>
    obtain rfl := List.isEmpty_iff.mp empty
    cases encoding with
    | utf8 => rw [Encoding.decode, Utf8.decode, Utf8.scan_nil]; rfl
    | utf16 | latin1 | ascii | hex | base64 | base64Url => rfl
  next => rfl

theorem encodeNamed_of_named {name : Text} {encoding : Encoding}
    (named : Encoding.named? name = some encoding) (t : Text) :
    encodeNamed name t = .ok (encoding.encode t) := by
  rw [encodeNamed, named]
  split
  next empty =>
    obtain rfl := List.isEmpty_iff.mp empty
    cases named
  next => rfl

/-- What is read from bytes encodes to them, and they decode to it; that is all it takes. -/
theorem decodeLosslessly_eq_ok_iff {bytes : Bytes} {name file t : Text} :
    decodeLosslessly bytes name file = .ok t ↔
      encodeNamed name t = .ok bytes ∧ decodeNamed name bytes = .ok t := by
  rw [decodeLosslessly]
  split
  next strict =>
    obtain ⟨_, named⟩ := named_of_isStrictName strict
    rw [encodeNamed_of_named named, decodeNamed_of_named named, Except.ok.injEq, Except.ok.injEq]
    have strictly : Utf8.decodeStrict? bytes = some t ↔ Utf8.encode t = bytes ∧ Utf8.decode bytes = t := by
      rw [Utf8.decodeStrict?_eq_some_iff]
      apply and_congr_right
      rintro rfl
      rw [Utf8.decode_encode]
    refine Iff.trans ?_ strictly
    cases Utf8.decodeStrict? bytes <;> simp
  next =>
    rw [bind_eq_ok]
    constructor
    · rintro ⟨own, decoded, rest⟩
      obtain ⟨back, encoded, rest⟩ := bind_eq_ok.mp rest
      split at rest
      next same =>
        obtain rfl := Except.ok.inj rest
        exact ⟨same ▸ encoded, decoded⟩
      next => cases rest
    · rintro ⟨encoded, decoded⟩
      exact ⟨t, decoded, bind_eq_ok.mpr ⟨bytes, encoded, if_pos rfl⟩⟩

/-- What is written for a text decodes to it, and it encodes to that; that is all it takes. -/
theorem encodeLosslessly_eq_ok_iff {bytes : Bytes} {t name file : Text} :
    encodeLosslessly t name file = .ok bytes ↔
      encodeNamed name t = .ok bytes ∧ decodeNamed name bytes = .ok t := by
  rw [encodeLosslessly, bind_eq_ok]
  constructor
  · rintro ⟨own, encoded, rest⟩
    obtain ⟨back, decoded, rest⟩ := bind_eq_ok.mp rest
    split at rest
    next same =>
      obtain rfl := Except.ok.inj rest
      exact ⟨encoded, same ▸ decoded⟩
    next => cases rest
  · rintro ⟨encoded, decoded⟩
    exact ⟨bytes, encoded, bind_eq_ok.mpr ⟨t, decoded, if_pos rfl⟩⟩

/-- The unit that may stand first in a text to tell the order of bytes. -/
def byteOrderMark : UInt16 := 0xFEFF

theorem Utf8.encode_mark (t : Text) : Utf8.encode (byteOrderMark :: t) = [0xEF, 0xBB, 0xBF] ++ Utf8.encode t := by
  rw [Utf8.encode, codes_cons_flat (by decide), List.flatMap_cons]
  rfl

theorem Utf8.decode_mark (rest : Bytes) :
    Utf8.decode ([0xEF, 0xBB, 0xBF] ++ rest) = byteOrderMark :: Utf8.decode rest := by
  have form : [0xEF, 0xBB, 0xBF] = encodeCode byteOrderMark.toNat := by decide
  rw [Utf8.decode, form, Utf8.scan_encodeCode (.inr ⟨by decide, by decide⟩)]
  rfl

/-- A byte order mark is no more than its unit: the text has it in front if and only if the bytes do. -/
theorem mark_prefix_iff {encoding : Encoding} (wide : encoding = .utf8 ∨ encoding = .utf16) {bytes : Bytes}
    {t : Text} (encoded : encoding.encode t = bytes) (decoded : encoding.decode bytes = t) :
    [byteOrderMark] <+: t ↔ encoding.encode [byteOrderMark] <+: bytes := by
  constructor
  · rintro ⟨rest, rfl⟩
    rcases wide with rfl | rfl
    · exact ⟨Utf8.encode rest, ((Utf8.encode_mark rest).symm.trans encoded)⟩
    · exact ⟨Encoding.utf16.encode rest, encoded⟩
  · rintro ⟨rest, rfl⟩
    rcases wide with rfl | rfl
    · exact ⟨Utf8.decode rest, (Utf8.decode_mark rest).symm.trans decoded⟩
    · exact ⟨Encoding.readPairs rest, decoded⟩

/-- Bytes that were read as a text are exactly what the text encodes to under the same name, whatever
encoding that is. A byte order mark in front of the bytes is a unit of the text. -/
theorem encodeNamed_of_decodeLosslessly {bytes : Bytes} {name file t : Text}
    (decoded : decodeLosslessly bytes name file = .ok t) :
    encodeNamed name t = .ok bytes ∧
      ∀ encoding, Encoding.named? name = some encoding → encoding = .utf8 ∨ encoding = .utf16 →
        ([byteOrderMark] <+: t ↔ encoding.encode [byteOrderMark] <+: bytes) := by
  obtain ⟨encoded, back⟩ := decodeLosslessly_eq_ok_iff.mp decoded
  refine ⟨encoded, fun encoding named wide => ?_⟩
  rw [encodeNamed_of_named named, Except.ok.injEq] at encoded
  rw [decodeNamed_of_named named, Except.ok.injEq] at back
  exact mark_prefix_iff wide encoded back

theorem encodeNamed_of_decodeLosslessly_marked :
    ∃ t, decodeLosslessly [0xEF, 0xBB, 0xBF, 0xE8, 0xBF, 0x94, 0xF0, 0x9F, 0x98, 0x80] (units "utf8") (units "a.rs") = .ok t ∧
      encodeNamed (units "utf8") t = .ok [0xEF, 0xBB, 0xBF, 0xE8, 0xBF, 0x94, 0xF0, 0x9F, 0x98, 0x80] ∧
      ∀ encoding, Encoding.named? (units "utf8") = some encoding → encoding = .utf8 ∨ encoding = .utf16 →
        ([byteOrderMark] <+: t ↔ encoding.encode [byteOrderMark] <+:
          [0xEF, 0xBB, 0xBF, 0xE8, 0xBF, 0x94, 0xF0, 0x9F, 0x98, 0x80]) := by
  have decoded : decodeLosslessly [0xEF, 0xBB, 0xBF, 0xE8, 0xBF, 0x94, 0xF0, 0x9F, 0x98, 0x80] (units "utf8") (units "a.rs") =
      .ok [0xFEFF, 0x8FD4, 0xD83D, 0xDE00] := by decide +kernel
  exact ⟨_, decoded, encodeNamed_of_decodeLosslessly decoded⟩

namespace Corpus

theorem write_not_mem_events_moveOver (temporary path target : Text) (written : Bytes) (mode : Nat)
    (answers : Answers) : .write target written mode ∉ ((moveOver temporary path).events answers).1 := by
  rw [moveOver, Script.events]
  cases answers.give .rename () <;> simp [Script.events]

/-- The only bytes that replacing a file may write are those of its text. -/
theorem eq_of_write_mem_events_replace {token : Text} {file : File} {t name : Text} {bytes : Bytes}
    (encoded : encodeLosslessly t name file.path = .ok bytes) (answers : Answers) {target : Text}
    {written : Bytes} {mode : Nat}
    (member : .write target written mode ∈ ((replace token file t name).events answers).1) :
    written = bytes := by
  simp only [replace, encoded, Script.events, List.mem_cons, reduceCtorEq, false_or] at member
  cases current : answers.give .read answers.bytes with
  | error fault => simp [current, Script.events] at member
  | ok current =>
    simp only [current, Script.events, List.mem_cons, reduceCtorEq, false_or] at member
    cases stated : answers.give .stat answers.mode with
    | error fault => simp [stated, Script.events] at member
    | ok stated =>
      simp only [stated] at member
      split at member
      next =>
        rcases List.mem_cons.mp member with same | later
        · exact (Event.write.inj same).2.1
        · cases moved : answers.give .write () with
          | error fault => simp [moved, Script.events] at later
          | ok moved =>
            rw [moved] at later
            exact (write_not_mem_events_moveOver _ _ _ _ _ _ later).elim
      next => simp [Script.events] at member

theorem write_mem_events_replace {token : Text} {file : File} {t name : Text} {bytes : Bytes}
    (encoded : encodeLosslessly t name file.path = .ok bytes) {answers : Answers}
    (readable : answers.fault .read = none) (stated : answers.fault .stat = none)
    (current : answers.bytes = file.bytes) :
    .write (temporaryPath token file.path) bytes answers.mode ∈
      ((replace token file t name).events answers).1 := by
  simp [replace, encoded, Script.events, Answers.give, readable, stated, current]

/-- What a file is replaced with can be read back. Once the text has passed the check of its encoding, the
one thing that is written, under whatever faults, is bytes that are read as this text again. -/
theorem replace_writes_readable {token : Text} {file : File} {t name : Text} {bytes : Bytes}
    (encoded : encodeLosslessly t name file.path = .ok bytes) :
    (∀ other, decodeLosslessly bytes name other = .ok t) ∧
    (∀ answers target written mode,
      .write target written mode ∈ ((replace token file t name).events answers).1 → written = bytes) ∧
    ∀ answers : Answers, answers.fault .read = none → answers.fault .stat = none → answers.bytes = file.bytes →
      .write (temporaryPath token file.path) bytes answers.mode ∈ ((replace token file t name).events answers).1 :=
  ⟨fun _ => decodeLosslessly_eq_ok_iff.mpr (encodeLosslessly_eq_ok_iff.mp encoded),
    fun answers _ _ _ => eq_of_write_mem_events_replace encoded answers,
    fun _ => write_mem_events_replace encoded⟩

theorem replace_writes_readable_marked :
    encodeLosslessly [byteOrderMark, 0xD83D, 0xDE00] (units "utf8") (units "a.rs") =
        .ok [0xEF, 0xBB, 0xBF, 0xF0, 0x9F, 0x98, 0x80] ∧
      (∀ other, decodeLosslessly [0xEF, 0xBB, 0xBF, 0xF0, 0x9F, 0x98, 0x80] (units "utf8") other =
        .ok [byteOrderMark, 0xD83D, 0xDE00]) ∧
      (∀ answers target written mode,
        .write target written mode ∈ ((replace (units "1") ⟨units "a.rs", [0x61], units "a"⟩
          [byteOrderMark, 0xD83D, 0xDE00] (units "utf8")).events answers).1 →
        written = [0xEF, 0xBB, 0xBF, 0xF0, 0x9F, 0x98, 0x80]) ∧
      ∀ answers : Answers, answers.fault .read = none → answers.fault .stat = none → answers.bytes = [0x61] →
        .write (temporaryPath (units "1") (units "a.rs")) [0xEF, 0xBB, 0xBF, 0xF0, 0x9F, 0x98, 0x80] answers.mode ∈
          ((replace (units "1") ⟨units "a.rs", [0x61], units "a"⟩
            [byteOrderMark, 0xD83D, 0xDE00] (units "utf8")).events answers).1 := by
  have encoded : encodeLosslessly [byteOrderMark, 0xD83D, 0xDE00] (units "utf8") (units "a.rs") =
      .ok [0xEF, 0xBB, 0xBF, 0xF0, 0x9F, 0x98, 0x80] := by decide +kernel
  exact ⟨encoded, replace_writes_readable encoded⟩

end Corpus

end Emend
