import Emend.Proofs.PhraseSeparators
import Emend.Proofs.Utf8Names

/-! Phrases and surrogate pairs. Keys are compared unit by unit, but a well-formed key starts with no low half and ends
with no high one, so in a well-formed text it never starts or ends inside a pair, and a well-formed value may take its
place. -/

namespace Emend

open Text

def Phrase.WellFormed (phrase : Phrase) : Prop := wellFormed phrase.key = true ∧ wellFormed phrase.value = true

instance (phrase : Phrase) : Decidable phrase.WellFormed := by
  unfold Phrase.WellFormed
  infer_instance

/-- What is replaced leaves as many halves open as what was there. By the occurrences that a pass over the line meets:
none of them starts where a half is open. -/
theorem pairing_replaceKey {key value : Text} (occupied : key ≠ []) (properKey : wellFormed key = true)
    (properValue : wellFormed value = true) {half after : Bool} {t : Text} (read : pairing half t = some after) :
    pairing half (replaceKey key value 0 t) = some after := by
  induction t using scan_induction occupied generalizing half with
  | nil => exact read
  | met rest ih =>
    obtain ⟨middle, first, later⟩ := pairing_append_iff.mp read
    obtain ⟨rfl, rfl⟩ := pairing_of_wellFormed properKey occupied first
    rw [replaceKey_met occupied]
    exact pairing_append_iff.mpr ⟨false, wellFormed_iff.mp properValue, ih later⟩
  | copied u rest none ih =>
    obtain ⟨own, later⟩ := pairing_cons.mp read
    rw [replaceKey_copied none]
    exact pairing_cons.mpr ⟨own, ih later⟩

namespace Phrase

theorem rewrite_wellFormed {phrase : Phrase} (occupied : phrase.key ≠ []) (proper : phrase.WellFormed) {line : Text}
    (properLine : wellFormed line = true) : wellFormed (phrase.rewrite line) = true := by
  by_cases active : phrase.active = true
  · rw [rewrite_of_active active, wellFormed_iff]
    exact pairing_replaceKey occupied proper.1 proper.2 (wellFormed_iff.mp properLine)
  · rwa [rewrite_of_not_active active]

theorem run_wellFormed {phrases : List Phrase} (occupied : ∀ phrase ∈ phrases, phrase.key ≠ [])
    (proper : ∀ phrase ∈ phrases, phrase.WellFormed) {line : Text} (properLine : wellFormed line = true) :
    wellFormed (run phrases line) = true := by
  induction phrases generalizing line with
  | nil => exact properLine
  | cons phrase phrases ih =>
    rw [List.forall_mem_cons] at occupied proper
    exact ih occupied.2 proper.2 (rewrite_wellFormed occupied.1 proper.1 properLine)

end Phrase

namespace PhraseTable

/-- A table of well-formed phrases makes a well-formed text of a well-formed one, so that the result can be written as
UTF-8, under whatever name. -/
theorem apply_wellFormed {table : PhraseTable} (proper : ∀ phrase ∈ table.entries, phrase.WellFormed) {text : Text}
    (properText : wellFormed text = true) :
    wellFormed (table.apply text).text = true ∧
      ∀ name file, Encoding.named? name = some .utf8 →
        encodeLosslessly (table.apply text).text name file = .ok (Utf8.encode (table.apply text).text) := by
  suffices kept : wellFormed (table.apply text).text = true from
    ⟨kept, fun name file named => encodeLosslessly_wellFormed named kept file⟩
  induction measure : text.length using Nat.strongRecOn generalizing text with
  | ind size ih =>
    by_cases feed : lineFeed ∈ text
    · obtain ⟨line, rest, rfl, single⟩ := List.eq_append_cons_of_mem feed
      obtain ⟨properLine, properRest⟩ := (wellFormed_between (by decide)).mp properText
      have shorter : rest.length < size := by
        rw [List.length_append, List.length_cons] at measure
        omega
      rw [apply_lineFeed, apply_line table single]
      exact (wellFormed_between (by decide)).mpr
        ⟨Phrase.run_wellFormed table.keys_ne_nil proper properLine, ih _ shorter properRest rfl⟩
    · rw [apply_line table feed]
      exact Phrase.run_wellFormed table.keys_ne_nil proper properText

/-- The second phrase is replaced beside a pair, and in what the first one has written. -/
private def pairTable : PhraseTable where
  entries := [⟨[0xD83D, 0xDE00], [0x62, 0xD83D, 0xDE01]⟩, ⟨units "b", [0xD83C, 0xDF89]⟩]
  keys_nodup := by decide
  keys_ne_nil := by decide

private def pairText : Text := [0xD83D, 0xDE00, 0x62, 0x0A, 0xD83D, 0xDE02, 0xD83D, 0xDE00]

theorem apply_wellFormed_pairs :
    (∀ phrase ∈ pairTable.entries, phrase.WellFormed) ∧ wellFormed pairText = true ∧
      (pairTable.apply pairText).text =
        [0xD83C, 0xDF89, 0xD83D, 0xDE01, 0xD83C, 0xDF89, 0x0A, 0xD83D, 0xDE02, 0xD83C, 0xDF89, 0xD83D, 0xDE01] ∧
      wellFormed (pairTable.apply pairText).text = true ∧
      ∀ name file, Encoding.named? name = some .utf8 →
        encodeLosslessly (pairTable.apply pairText).text name file = .ok (Utf8.encode (pairTable.apply pairText).text) := by
  have proper : ∀ phrase ∈ pairTable.entries, phrase.WellFormed := by decide
  have properText : wellFormed pairText = true := by decide
  exact ⟨proper, properText, by decide, apply_wellFormed proper properText⟩

end PhraseTable

end Emend
