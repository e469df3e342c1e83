import Emend.Plan
import Emend.Proofs.PathText
import Emend.Proofs.PhraseRuns
import Mathlib.Algebra.Order.BigOperators.Group.List

/-! What the tables of a plan do to a text, in passes. A table has each key once. It works on each line for itself and
writes no end of a line, so that all passes together are one run of all phrases over each line. -/

namespace Emend

open Text

section Lines

variable {separator : UInt16}

theorem join_split (t : Text) : join [separator] (split separator t) = t := by
  induction t with
  | nil => simp [split, join]
  | cons u t ih =>
    have some : split separator t ≠ [] := split_ne_nil t
    by_cases same : u = separator
    · rw [same, split_separator, join_cons _ some, ih]
      rfl
    · obtain ⟨piece, others, cut⟩ := List.exists_cons_of_ne_nil some
      have front : join [separator] (copyInto u (split separator t)) = u :: join [separator] (split separator t) :=
        join_copyInto some
      rw [ih, cut, copyInto] at front
      rw [split_cons same cut, front]

end Lines

theorem Revision.untouched_iff {revision : Revision} :
    revision.untouched = true ↔ revision.structural = 0 ∧ revision.phrases = 0 := by
  rw [untouched, Bool.and_eq_true, beq_iff_eq, beq_iff_eq]

namespace PhraseTable

/-- Phrases as a table has them: a repeated key keeps its first place and takes its last value. -/
def gather (phrases : List Phrase) : List Phrase :=
  phrases.foldl (fun entries phrase => putEntry phrase entries) []

theorem foldlM_put {phrases : List Phrase} (filled : ∀ phrase ∈ phrases, phrase.key ≠ []) (table : PhraseTable) :
    ∃ result : PhraseTable, phrases.foldlM (fun table phrase =>
        if empty : phrase.key = [] then Except.error Defect.emptyKey else .ok (table.put phrase empty)) table = .ok result ∧
      result.entries = phrases.foldl (fun entries phrase => putEntry phrase entries) table.entries := by
  induction phrases generalizing table with
  | nil => exact ⟨table, rfl, rfl⟩
  | cons phrase phrases ih =>
    rw [List.forall_mem_cons] at filled
    obtain ⟨result, folds, entries⟩ := ih filled.2 (table.put phrase filled.1)
    refine ⟨result, ?_, entries⟩
    rw [List.foldlM_cons, dif_neg filled.1]
    exact folds

theorem exists_ofEntries {phrases : List Phrase} (filled : ∀ phrase ∈ phrases, phrase.key ≠ []) :
    ∃ table, ofEntries phrases = .ok table ∧ table.entries = gather phrases :=
  foldlM_put filled empty

theorem mem_of_mem_gather {phrases : List Phrase} {phrase : Phrase} (member : phrase ∈ gather phrases) :
    phrase ∈ phrases := by
  induction phrases using List.reverseRecOn with
  | nil => cases member
  | append_singleton front last ih =>
    rw [gather, List.foldl_append] at member
    rcases mem_putEntry member with rfl | earlier
    · exact List.mem_append_right _ List.mem_cons_self
    · exact List.mem_append_left _ (ih earlier)

section

variable (keep : Text → Bool)

theorem filter_putEntry (phrase : Phrase) (entries : List Phrase) :
    (putEntry phrase entries).filter (fun entry => keep entry.key) =
      if keep phrase.key = true then putEntry phrase (entries.filter fun entry => keep entry.key)
      else entries.filter fun entry => keep entry.key := by
  induction entries with
  | nil => simp only [putEntry, List.filter_cons, List.filter_nil]
  | cons entry entries ih =>
    by_cases same : entry.key = phrase.key
    · rw [putEntry, if_pos same, List.filter_cons, List.filter_cons, same]
      split
      next => rw [putEntry, if_pos same]
      next => rfl
    · rw [putEntry, if_neg same, List.filter_cons, List.filter_cons, ih]
      split <;> split
      next => rw [putEntry, if_neg same]
      all_goals rfl

theorem filter_gather (phrases : List Phrase) :
    (gather phrases).filter (fun entry => keep entry.key) = gather (phrases.filter fun entry => keep entry.key) := by
  induction phrases using List.reverseRecOn with
  | nil => rfl
  | append_singleton front last ih =>
    rw [gather, List.foldl_append, List.foldl_cons, List.foldl_nil, ← gather, filter_putEntry, ih, List.filter_append,
      List.filter_cons, List.filter_nil]
    split
    next => rw [gather, gather, List.foldl_append, List.foldl_cons, List.foldl_nil]
    next => rw [List.append_nil]

end

end PhraseTable

namespace Plan

open Phrase

def phrases (tables : List PhraseTable) : List Phrase := tables.flatMap PhraseTable.entries

theorem filled_of_mem_phrases {tables : List PhraseTable} {phrase : Phrase} (member : phrase ∈ phrases tables) :
    phrase.key ≠ [] := by
  obtain ⟨table, _, inside⟩ := List.mem_flatMap.mp member
  exact table.keys_ne_nil phrase inside

theorem apply_table (table : PhraseTable) (t : Text) : table.apply t =
    ⟨join [lineFeed] ((split lineFeed t).map (run table.entries)),
      ((split lineFeed t).map (total table.entries)).sum⟩ := by
  have line : table.applyToLine = fun line => ⟨run table.entries line, total table.entries line⟩ := by
    funext line
    rw [PhraseTable.applyToLine, foldl_apply, Nat.zero_add]
  rw [PhraseTable.apply, line, List.map_map, List.map_map]
  rfl

theorem count_apply_table_eq_zero_iff (table : PhraseTable) (t : Text) : (table.apply t).count = 0 ↔
    ∀ line ∈ split lineFeed t, ∀ phrase ∈ table.entries, phrase.active = true → ¬ phrase.key <:+: line := by
  rw [apply_table, List.sum_eq_zero_iff, List.forall_mem_map]
  exact forall₂_congr fun line _ => total_eq_zero_iff table.keys_ne_nil

theorem apply_table_of_count_eq_zero {table : PhraseTable} {t : Text} (none : (table.apply t).count = 0) :
    (table.apply t).text = t := by
  have absent := (count_apply_table_eq_zero_iff table t).mp none
  have lines : (split lineFeed t).map (run table.entries) = split lineFeed t := by
    rw [List.map_congr_left, List.map_id]
    intro line member
    apply run_of_total_eq_zero table.keys_ne_nil
    exact (total_eq_zero_iff table.keys_ne_nil).mpr (absent line member)
  rw [apply_table, lines, join_split]

section Passes

variable {α : Type} (apply : α → Text → Count)

/-- Some passes over a text, each on what the one before it has left, with all that they count. -/
def passes (items : List α) (t : Text) : Count :=
  items.foldl (fun current item =>
    ⟨(apply item current.text).text, current.count + (apply item current.text).count⟩) ⟨t, 0⟩

theorem passes_cons (item : α) (items : List α) (t : Text) :
    passes apply (item :: items) t = ⟨(passes apply items (apply item t).text).text,
      (apply item t).count + (passes apply items (apply item t).text).count⟩ := by
  have shifted (items : List α) (t : Text) (count : Nat) : items.foldl (fun current item =>
      ⟨(apply item current.text).text, current.count + (apply item current.text).count⟩) ⟨t, count⟩ =
        (⟨(passes apply items t).text, count + (passes apply items t).count⟩ : Count) := by
    induction items generalizing t count with
    | nil => rfl
    | cons item items ih =>
      rw [passes, List.foldl_cons, List.foldl_cons, ih, ih]
      simp only [Nat.zero_add, Nat.add_assoc]
  rw [passes, List.foldl_cons, shifted, Nat.zero_add]

variable {apply} {items : List α}
  (keeps : ∀ item ∈ items, ∀ t, (apply item t).count = 0 → (apply item t).text = t)

include keeps

/-- Where a pass that counts nothing leaves the text, passes count nothing together only if none of them finds
anything in the text that is given. -/
theorem count_passes_eq_zero_iff (t : Text) :
    (passes apply items t).count = 0 ↔ ∀ item ∈ items, (apply item t).count = 0 := by
  induction items generalizing t with
  | nil => exact iff_of_true rfl (List.forall_mem_nil _)
  | cons item items ih =>
    obtain ⟨first, others⟩ := List.forall_mem_cons.mp keeps
    rw [passes_cons, List.forall_mem_cons, Nat.add_eq_zero_iff]
    apply and_congr_right
    intro none
    rw [first t none]
    exact ih others t

theorem passes_of_count_eq_zero {t : Text} (none : (passes apply items t).count = 0) :
    (passes apply items t).text = t := by
  induction items generalizing t with
  | nil => rfl
  | cons item items ih =>
    obtain ⟨first, others⟩ := List.forall_mem_cons.mp keeps
    rw [passes_cons] at none ⊢
    obtain ⟨own, later⟩ := Nat.add_eq_zero_iff.mp none
    have same := first t own
    rw [same] at later
    exact (congrArg (fun t => (passes apply items t).text) same).trans (ih others later)

end Passes

theorem applyTables_of_count_eq_zero {tables : List PhraseTable} {t : Text} (none : (applyTables tables t).count = 0) :
    (applyTables tables t).text = t :=
  @passes_of_count_eq_zero _ PhraseTable.apply tables (fun _ _ _ => apply_table_of_count_eq_zero) t none

section

variable {tables : List PhraseTable} (flat : ∀ phrase ∈ phrases tables, lineFeed ∉ phrase.value)
include flat

/-- The tables work on each line for itself, since none writes the end of a line. -/
theorem foldl_apply_tables {lines : List Text} (some : lines ≠ []) (apart : ∀ line ∈ lines, lineFeed ∉ line)
    (count : Nat) :
    tables.foldl (fun current table =>
        ⟨(table.apply current.text).text, current.count + (table.apply current.text).count⟩)
        (⟨join [lineFeed] lines, count⟩ : Count) =
      ⟨join [lineFeed] (lines.map (run (phrases tables))), count + (lines.map (total (phrases tables))).sum⟩ := by
  induction tables generalizing lines count with
  | nil =>
    have same : run [] = id := rfl
    have none : total [] = fun _ => 0 := rfl
    simp [phrases, same, none]
  | cons table tables ih =>
    have own : ∀ phrase ∈ table.entries, lineFeed ∉ phrase.value := by
      intro phrase member
      exact flat phrase (List.mem_append_left _ member)
    have others : ∀ phrase ∈ phrases tables, lineFeed ∉ phrase.value := by
      intro phrase member
      exact flat phrase (List.mem_append_right _ member)
    have cut : split lineFeed (join [lineFeed] lines) = lines := by
      obtain ⟨first, rest, rfl⟩ := List.exists_cons_of_ne_nil some
      exact split_join apart
    have clean : ∀ line ∈ lines.map (run table.entries), lineFeed ∉ line := by
      intro line member
      obtain ⟨before, among, rfl⟩ := List.mem_map.mp member
      exact not_mem_run table.keys_ne_nil own (apart before among)
    have runs : run (phrases (table :: tables)) = run (phrases tables) ∘ run table.entries :=
      funext fun line => run_append table.entries (phrases tables) line
    have totals : total (phrases (table :: tables)) =
        fun line => total table.entries line + (total (phrases tables) ∘ run table.entries) line :=
      funext fun line => total_append table.entries (phrases tables) line
    rw [List.foldl_cons, apply_table, cut, ih others (mt List.map_eq_nil_iff.mp some) clean, List.map_map, List.map_map,
      Nat.add_assoc, ← List.sum_map_add, runs, totals]

theorem applyTables_eq (t : Text) : applyTables tables t =
    ⟨join [lineFeed] ((split lineFeed t).map (run (phrases tables))),
      ((split lineFeed t).map (total (phrases tables))).sum⟩ := by
  have passes := foldl_apply_tables flat (split_ne_nil t) (fun _ => not_mem_of_mem_split) 0
  rwa [join_split, Nat.zero_add] at passes

theorem applyTables_line {line : Text} (clean : lineFeed ∉ line) :
    applyTables tables line = ⟨run (phrases tables) line, total (phrases tables) line⟩ := by
  rw [applyTables_eq flat, split_free clean]
  simp [join]

theorem split_applyTables (t : Text) :
    split lineFeed (applyTables tables t).text = (split lineFeed t).map (run (phrases tables)) := by
  obtain ⟨first, rest, cut⟩ := List.exists_cons_of_ne_nil (@split_ne_nil lineFeed t)
  rw [applyTables_eq flat, cut, List.map_cons]
  apply split_join
  intro line member
  rw [← List.map_cons, ← cut] at member
  obtain ⟨before, among, rfl⟩ := List.mem_map.mp member
  exact not_mem_run (fun _ => filled_of_mem_phrases) flat (not_mem_of_mem_split among)

theorem count_applyTables_eq_zero_iff (t : Text) : (applyTables tables t).count = 0 ↔
    ∀ line ∈ split lineFeed t, ∀ phrase ∈ phrases tables, phrase.active = true → ¬ phrase.key <:+: line := by
  rw [applyTables_eq flat, List.sum_eq_zero_iff, List.forall_mem_map]
  exact forall₂_congr fun line _ => total_eq_zero_iff fun _ => filled_of_mem_phrases

end

theorem weight_join_map {weight : Text → Int} (additive : ∀ a b, weight (a ++ b) = weight a + weight b)
    {change : Text → Text} {count : Text → Nat} (less : ∀ line, weight (change line) + count line ≤ weight line)
    (separator : Text) (lines : List Text) :
    weight (join separator (lines.map change)) + (lines.map count).sum ≤ weight (join separator lines) := by
  induction lines with
  | nil => simp
  | cons line lines ih =>
    have first := less line
    cases lines with
    | nil => simpa [join] using first
    | cons next lines =>
      have some : (next :: lines).map change ≠ [] := List.cons_ne_nil _ _
      rw [List.map_cons, join_cons _ (List.cons_ne_nil _ _), join_cons _ some, additive, additive, additive, additive,
        List.map_cons (f := count), List.sum_cons, Nat.cast_add]
      linarith

section

variable {tables : List PhraseTable} (flat : ∀ phrase ∈ phrases tables, lineFeed ∉ phrase.value)
  {weight : Text → Int} (additive : ∀ a b, weight (a ++ b) = weight a + weight b)
  (lighter : ∀ phrase ∈ phrases tables, phrase.active = true → weight phrase.value < weight phrase.key)
include flat additive lighter

theorem weight_applyTables (t : Text) :
    weight (applyTables tables t).text + (applyTables tables t).count ≤ weight t := by
  have lines := weight_join_map additive (weight_run (fun _ => filled_of_mem_phrases) additive lighter) [lineFeed]
    (split lineFeed t)
  rw [join_split] at lines
  rwa [applyTables_eq flat]

/-- Where every phrase takes something away, a text stays as it is only if nothing is replaced. -/
theorem applyTables_text_eq_iff (t : Text) :
    (applyTables tables t).text = t ↔ (applyTables tables t).count = 0 := by
  constructor
  · intro same
    have falls := weight_applyTables flat additive lighter t
    rw [same] at falls
    omega
  · exact applyTables_of_count_eq_zero

/-- Another run leaves a text as it is, except where the run before it leaves a key that it has joined. -/
theorem applyTables_again_iff
    (plain : ∀ entry ∈ phrases tables, entry.active = true → ∀ phrase ∈ phrases tables, ¬ entry.key <:+: phrase.value)
    (t : Text) :
    (applyTables tables (applyTables tables t).text).text = (applyTables tables t).text ↔
      ¬ ∃ line ∈ split lineFeed t, ∃ key, LeavesJoined (phrases tables) key line := by
  rw [applyTables_text_eq_iff flat additive lighter, count_applyTables_eq_zero_iff flat, split_applyTables flat,
    List.forall_mem_map]
  constructor
  · rintro none ⟨line, among, key, leaves⟩
    obtain ⟨entry, member, active, rfl⟩ := leaves.gone
    exact none line among entry member active leaves.left
  · intro none line among entry member active left
    apply none
    have apart : ∀ entry ∈ phrases tables, entry.active = true → ∀ phrase ∈ phrases tables, phrase.active = true →
        ¬ entry.key <:+: phrase.value := by
      intro entry member active phrase other _
      exact plain entry member active phrase other
    exact ⟨line, among, entry.key, leavesJoined_of_left (fun _ => filled_of_mem_phrases) apart member active left⟩

end

end Plan

end Emend
