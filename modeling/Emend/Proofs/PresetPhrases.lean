import Emend.Preset.Catalogue
import Emend.Proofs.MessageCount
import Emend.Proofs.TablePasses
import Mathlib.Tactic.Ring

/-! The built-in phrases. What is known of each of them is checked on their letters, so that no check reads a string,
and it passes to the tables, which have no other phrases. -/

namespace Emend

open Text

theorem units_ofList (letters : List Char) : units (String.ofList letters) = letters.flatMap ofChar := by
  rw [units, String.toList_ofList]

def Phrase.ofLetters (letters : List Char × List Char) : Phrase :=
  ⟨letters.1.flatMap ofChar, letters.2.flatMap ofChar⟩

/-- Phrases that are written as strings, and their letters. -/
inductive Spelled : List Phrase → List (List Char × List Char) → Prop where
  | nil : Spelled [] []
  | cons {key value : List Char} {phrases : List Phrase} {letters : List (List Char × List Char)}
      (rest : Spelled phrases letters) :
      Spelled (⟨units (String.ofList key), units (String.ofList value)⟩ :: phrases) ((key, value) :: letters)

namespace Spelled

theorem eq_map {phrases : List Phrase} {letters : List (List Char × List Char)} (spelled : Spelled phrases letters) :
    phrases = letters.map Phrase.ofLetters := by
  induction spelled with
  | nil => rfl
  | cons rest ih => rw [List.map_cons, ← ih, Phrase.ofLetters, units_ofList, units_ofList]

theorem holds (property : List Phrase → Prop) {phrases : List Phrase} {letters : List (List Char × List Char)}
    (spelled : Spelled phrases letters) (own : property (letters.map Phrase.ofLetters)) : property phrases :=
  spelled.eq_map ▸ own

end Spelled

def Text.isPlain (u : UInt16) : Bool := space ≤ u && u < 0x80

theorem Text.not_isForeign_of_isPlain {u : UInt16} (plain : isPlain u = true) : ¬ isForeign u = true := by
  simp only [isPlain, isForeign, Bool.and_eq_true, decide_eq_true_eq, UInt16.le_iff_toNat_le, UInt16.lt_iff_toNat_lt]
    at plain ⊢
  omega

/-- A sum over the units of a text. A unit outside of ASCII counts more than a key is long, and among texts in ASCII
the longer one counts less. -/
def Text.burden (t : Text) : Int := 1000 * foreign t - t.length

theorem Text.burden_append (a b : Text) : burden (a ++ b) = burden a + burden b := by
  rw [burden, burden, burden, foreign_append, List.length_append]
  push_cast
  ring

namespace Phrase

/-- What the built-in phrases have in common: a value in ASCII and within one line, and a key that is not, or is shorter
than its value. -/
def isTranslation (phrase : Phrase) : Bool :=
  !phrase.key.isEmpty && phrase.key.length < 1000 && phrase.value.all isPlain &&
    (!phrase.active || phrase.key.any isForeign || phrase.key.length < phrase.value.length)

section

variable {phrase : Phrase} (translation : phrase.isTranslation = true)
include translation

theorem key_ne_nil_of_isTranslation : phrase.key ≠ [] := by
  simp only [isTranslation, Bool.and_eq_true] at translation
  simpa using translation.1.1.1

theorem isPlain_of_isTranslation : ∀ u ∈ phrase.value, isPlain u = true := by
  simp only [isTranslation, Bool.and_eq_true] at translation
  exact List.all_eq_true.mp translation.1.2

theorem foreign_value_of_isTranslation : foreign phrase.value = 0 :=
  List.countP_eq_zero.mpr fun u member => not_isForeign_of_isPlain (isPlain_of_isTranslation translation u member)

theorem lineFeed_not_mem_of_isTranslation : lineFeed ∉ phrase.value := by
  intro member
  exact absurd (isPlain_of_isTranslation translation lineFeed member) (by decide)

theorem burden_lt_of_isTranslation (active : phrase.active = true) : burden phrase.value < burden phrase.key := by
  have none := foreign_value_of_isTranslation translation
  simp only [isTranslation, active, Bool.and_eq_true, Bool.or_eq_true, Bool.not_true, decide_eq_true_eq, Bool.false_eq_true,
    false_or] at translation
  obtain ⟨⟨⟨_, brief⟩, _⟩, outside | longer⟩ := translation
  · have some : 0 < foreign phrase.key := List.countP_pos_iff.mpr (List.any_eq_true.mp outside)
    rw [burden, burden, none]
    omega
  · rw [burden, burden, none]
    omega

end

end Phrase

namespace Preset

/-- The built-in documents of phrases in the order in which they follow each other up. -/
def chain : List PhraseDocument := [zhEnComments, zhEnFollowup1, zhEnFollowup2, zhEnFollowup3, zhEnFollowup4]

section Letters

set_option maxRecDepth 100000

/-- The built-in phrases are translations, and the few keys that are in ASCII are in no value. -/
theorem chain_translates : (∀ phrase ∈ chain.flatMap Document.items, phrase.isTranslation = true) ∧
    ∀ entry ∈ (chain.flatMap Document.items).filter fun entry => entry.active && !entry.key.any isForeign,
      ∀ phrase ∈ chain.flatMap Document.items, occursIn entry.key phrase.value = false := by
  apply Spelled.holds fun phrases => (∀ phrase ∈ phrases, phrase.isTranslation = true) ∧
    ∀ entry ∈ phrases.filter fun entry => entry.active && !entry.key.any isForeign,
      ∀ phrase ∈ phrases, occursIn entry.key phrase.value = false
  · dsimp only [chain, List.flatMap_cons, List.flatMap_nil, zhEnComments, zhEnFollowup1, zhEnFollowup2, zhEnFollowup3,
      zhEnFollowup4]
    repeat (first | exact .nil | apply Spelled.cons)
  · decide +kernel

theorem key_foreign_of_mem_comments :
    ∀ phrase ∈ zhEnComments.items, phrase.active = true → phrase.key.any isForeign = true := by
  apply Spelled.holds fun phrases => ∀ phrase ∈ phrases, phrase.active = true → phrase.key.any isForeign = true
  · dsimp only [zhEnComments]
    repeat (first | exact .nil | apply Spelled.cons)
  · decide +kernel

end Letters

theorem not_infix_of_mem_chain {entry phrase : Phrase} (member : entry ∈ chain.flatMap Document.items)
    (active : entry.active = true) (other : phrase ∈ chain.flatMap Document.items) :
    ¬ entry.key <:+: phrase.value := by
  intro occurs
  by_cases outside : entry.key.any isForeign = true
  · obtain ⟨u, inside, foreign⟩ := List.any_eq_true.mp outside
    have plain := Phrase.isPlain_of_isTranslation (chain_translates.1 phrase other) u (occurs.subset inside)
    exact not_isForeign_of_isPlain plain foreign
  · have kept : entry ∈ (chain.flatMap Document.items).filter
        (fun entry => entry.active && !entry.key.any isForeign) := by
      apply List.mem_filter.mpr ⟨member, _⟩
      rw [active, Bool.true_and, Bool.not_eq_true', ← Bool.not_eq_true]
      exact outside
    have absent := chain_translates.2 entry kept phrase other
    rw [occursIn_iff.mpr occurs] at absent
    cases absent

theorem exists_table {document : PhraseDocument} (known : document ∈ chain) :
    ∃ table, document.table = .ok table ∧ table.entries = PhraseTable.gather document.items := by
  apply PhraseTable.exists_ofEntries
  intro phrase member
  apply Phrase.key_ne_nil_of_isTranslation
  exact chain_translates.1 phrase (List.mem_flatMap.mpr ⟨document, known, member⟩)

theorem exists_tables {documents : List PhraseDocument} (known : documents ⊆ chain) :
    ∃ tables, documents.mapM Document.table = .ok tables ∧
      Plan.phrases tables = documents.flatMap fun document => PhraseTable.gather document.items := by
  induction documents with
  | nil => exact ⟨[], rfl, rfl⟩
  | cons document documents ih =>
    obtain ⟨own, others⟩ := List.cons_subset.mp known
    obtain ⟨table, first, entries⟩ := exists_table own
    obtain ⟨tables, later, phrases⟩ := ih others
    refine ⟨table :: tables, mapM_cons_eq_ok first later, ?_⟩
    rw [List.flatMap_cons, ← phrases, ← entries]
    rfl

end Preset

end Emend
