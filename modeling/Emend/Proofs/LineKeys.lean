import Emend.Proofs.TablePasses

/-! Keys with a line feed. A line has no line feed when a run over it begins, so such a key finds nothing but what
earlier phrases have written. Unless it does, a table works as if it did not have the key. -/

namespace Emend

open Text

def Phrase.isWithinLine (phrase : Phrase) : Bool := !phrase.key.contains lineFeed

/-- A table without the phrases whose key has a line feed. -/
def PhraseTable.withinLine (table : PhraseTable) : PhraseTable where
  entries := table.entries.filter Phrase.isWithinLine
  keys_nodup := table.keys_nodup.sublist (List.filter_sublist.map Phrase.key)
  keys_ne_nil entry member := table.keys_ne_nil entry (List.mem_of_mem_filter member)

namespace Phrase

theorem isWithinLine_iff {phrase : Phrase} : phrase.isWithinLine = true ↔ lineFeed ∉ phrase.key := by
  simp [isWithinLine]

/-- A phrase is replaced in what the phrases before it have left of a line. -/
structure Finds (phrase : Phrase) (front : List Phrase) (line : Text) : Prop where
  active : phrase.active = true
  occurs : phrase.key <:+: run front line

theorem finds_iff {phrase : Phrase} {front : List Phrase} {line : Text} (filled : phrase.key ≠ []) :
    phrase.Finds front line ↔ phrase.replaced (run front line) ≠ 0 := by
  rw [Ne, replaced_eq_zero_iff filled]
  push Not
  exact ⟨fun finds => ⟨finds.active, finds.occurs⟩, fun both => ⟨both.1, both.2⟩⟩

/-- In a run over a line, a phrase whose key has a line feed is replaced after one whose value has written a line
feed. -/
def SpansWritten (phrases : List Phrase) (line : Text) : Prop :=
  ∃ front writer middle phrase back, phrases = front ++ writer :: middle ++ phrase :: back ∧
    (writer.Finds front line ∧ lineFeed ∈ writer.value) ∧
    phrase.Finds (front ++ writer :: middle) line ∧ lineFeed ∈ phrase.key

theorem SpansWritten.append {phrases : List Phrase} {line : Text} (spans : SpansWritten phrases line)
    (more : List Phrase) : SpansWritten (phrases ++ more) line := by
  obtain ⟨front, writer, middle, phrase, back, rfl, writes, finds⟩ := spans
  exact ⟨front, writer, middle, phrase, back ++ more, by simp, writes, finds⟩

section

variable {phrases : List Phrase} (filled : ∀ phrase ∈ phrases, phrase.key ≠ [])
include filled

/-- What a run leaves in a line that did not have it has been written by a phrase that was replaced. -/
theorem exists_writer {u : UInt16} {line : Text} (clean : u ∉ line) (left : u ∈ run phrases line) :
    ∃ front writer back, phrases = front ++ writer :: back ∧ writer.Finds front line ∧ u ∈ writer.value := by
  -- From the end: the last phrase has written it, or it was there before.
  induction phrases using List.reverseRecOn with
  | nil => exact absurd left clean
  | append_singleton front last ih =>
    by_cases before : u ∈ run front line
    · obtain ⟨first, writer, back, rfl, writes⟩ :=
        ih (fun phrase member => filled phrase (List.mem_append_left _ member)) before
      exact ⟨first, writer, back ++ [last], by simp, writes⟩
    have own : last.key ≠ [] := filled last (List.mem_append_right _ List.mem_cons_self)
    rw [run_append, run, run] at left
    have replaced : last.replaced (run front line) ≠ 0 := by
      intro none
      rw [rewrite_of_replaced_eq_zero own none] at left
      exact before left
    exact ⟨front, last, [], rfl, (finds_iff own).mpr replaced, (mem_rewrite own left).resolve_left before⟩

/-- A phrase whose key has a line feed is idle in a run over a line, unless the line feed has been written. -/
theorem run_withinLine {line : Text} (single : lineFeed ∉ line) (unspanned : ¬ SpansWritten phrases line) :
    run (phrases.filter isWithinLine) line = run phrases line ∧
      total (phrases.filter isWithinLine) line = total phrases line := by
  induction phrases using List.reverseRecOn with
  | nil => exact ⟨rfl, rfl⟩
  | append_singleton front last ih =>
    have others : ∀ phrase ∈ front, phrase.key ≠ [] :=
      fun phrase member => filled phrase (List.mem_append_left _ member)
    obtain ⟨text, count⟩ := ih others fun spans => unspanned (spans.append [last])
    rw [List.filter_append, run_append, run_append, total_append, total_append, text, count]
    by_cases within : last.isWithinLine = true
    · rw [List.filter_cons_of_pos within, List.filter_nil]
      exact ⟨rfl, rfl⟩
    · have feed : lineFeed ∈ last.key := not_not.mp (mt isWithinLine_iff.mpr within)
      have own : last.key ≠ [] := List.ne_nil_of_mem feed
      have idle : last.replaced (run front line) = 0 := by
        by_contra replaced
        have finds := (finds_iff own).mpr replaced
        obtain ⟨first, writer, middle, rfl, writes⟩ := exists_writer others single (finds.occurs.subset feed)
        exact unspanned ⟨first, writer, middle, last, [], rfl, writes, finds, feed⟩
      rw [List.filter_cons_of_neg within, List.filter_nil, run, run, run, total, total, total, idle,
        rewrite_of_replaced_eq_zero own idle]
      exact ⟨rfl, rfl⟩

end

theorem not_spansWritten {phrases : List Phrase}
    (ordered : phrases.Pairwise fun writer phrase => writer.active = true → lineFeed ∈ writer.value →
      phrase.active = true → lineFeed ∉ phrase.key) (line : Text) : ¬ SpansWritten phrases line := by
  rintro ⟨front, writer, middle, phrase, back, rfl, ⟨writes, inValue⟩, finds, inKey⟩
  have before : writer ∈ front ++ writer :: middle := List.mem_append_right _ List.mem_cons_self
  have apart := (List.pairwise_append.mp ordered).2.2 writer before phrase List.mem_cons_self
  exact apart writes.active inValue finds.active inKey

end Phrase

namespace PhraseTable

open Phrase

/-- The phrases whose key has a line feed can be left out of a table, for every text over whose lines no key spans what
a value has written. So they can be left out for every text if the values with a line feed come after these keys. -/
theorem apply_withinLine (table : PhraseTable) :
    (∀ t, (∀ line ∈ split lineFeed t, ¬ SpansWritten table.entries line) → table.withinLine.apply t = table.apply t) ∧
    ((table.entries.Pairwise fun writer phrase => writer.active = true → lineFeed ∈ writer.value →
        phrase.active = true → lineFeed ∉ phrase.key) →
      ∀ t, table.withinLine.apply t = table.apply t) := by
  have same (t : Text) (unspanned : ∀ line ∈ split lineFeed t, ¬ SpansWritten table.entries line) :
      table.withinLine.apply t = table.apply t := by
    have both {line : Text} (among : line ∈ split lineFeed t) :=
      run_withinLine table.keys_ne_nil (not_mem_of_mem_split among) (unspanned line among)
    have texts : (split lineFeed t).map (run table.withinLine.entries) = (split lineFeed t).map (run table.entries) :=
      List.map_congr_left fun _ among => (both among).1
    have counts : (split lineFeed t).map (total table.withinLine.entries) =
        (split lineFeed t).map (total table.entries) := List.map_congr_left fun _ among => (both among).2
    rw [Plan.apply_table, Plan.apply_table, texts, counts]
  exact ⟨same, fun ordered t => same t fun line _ => not_spansWritten ordered line⟩

/-- A key with a line feed that is in the text and, later on, in a value. -/
theorem apply_withinLine_ordered :
    ∃ table : PhraseTable,
      table.entries = [⟨units "b\nc", units "x"⟩, ⟨units "a", units "b\nc"⟩, ⟨units "c", units "d"⟩] ∧
      table.withinLine.entries = [⟨units "a", units "b\nc"⟩, ⟨units "c", units "d"⟩] ∧
      (∀ line ∈ split lineFeed (units "a\nb\nc"), ¬ SpansWritten table.entries line) ∧
      table.withinLine.apply (units "a\nb\nc") = ⟨units "b\nd\nb\nd", 3⟩ ∧
      ∀ t, table.withinLine.apply t = table.apply t := by
  let table : PhraseTable := ⟨[⟨units "b\nc", units "x"⟩, ⟨units "a", units "b\nc"⟩, ⟨units "c", units "d"⟩],
    by decide, by decide⟩
  have unspanned : ∀ line ∈ split lineFeed (units "a\nb\nc"), ¬ SpansWritten table.entries line :=
    fun line _ => not_spansWritten (by decide) line
  refine ⟨table, rfl, by decide, unspanned, ?_, (apply_withinLine table).2 (by decide)⟩
  exact ((apply_withinLine table).1 _ unspanned).trans (by decide)

/-- A key that spans two lines, of which the value before it has written the end of the first. -/
theorem apply_withinLine_spanned :
    ∃ table : PhraseTable, ofEntries [⟨units "a", units "b\nc"⟩, ⟨units "b\nc", units "x"⟩] = .ok table ∧
      table.apply (units "a") = ⟨units "x", 2⟩ ∧ table.withinLine.entries = [⟨units "a", units "b\nc"⟩] ∧
      table.withinLine.apply (units "a") = ⟨units "b\nc", 1⟩ :=
  ⟨⟨[⟨units "a", units "b\nc"⟩, ⟨units "b\nc", units "x"⟩], by decide, by decide⟩, rfl, by decide, by decide, by decide⟩

end PhraseTable

end Emend
