import Emend.Proofs.RuleRewrites
import Emend.Proofs.TablePasses

/-! What stands between separators is rewritten for itself. No occurrence of a key reaches over a unit that the key
lacks, so such a unit parts the text for one phrase, and again for the next one in what the first has left, whatever
the values write. A line feed parts the text for a whole table, since a table goes by lines. -/

namespace Emend

open Text

def Count.beside (mark : UInt16) (left right : Count) : Count :=
  ⟨left.text ++ mark :: right.text, left.count + right.count⟩

theorem Count.beside_assoc (one two : UInt16) (left middle right : Count) :
    (left.beside one middle).beside two right = left.beside one (middle.beside two right) := by
  simp only [beside, List.append_assoc, List.cons_append, Nat.add_assoc]

section

variable {key value : Text} {mark : UInt16} (occupied : key ≠ []) (lacks : mark ∉ key)
include occupied lacks

theorem replaceKey_between (left right : Text) :
    replaceKey key value 0 (left ++ mark :: right) =
        replaceKey key value 0 left ++ mark :: replaceKey key value 0 right ∧
      countKey key 0 (left ++ mark :: right) = countKey key 0 left + countKey key 0 right := by
  have within {t : Text} (starts : key <+: t ++ mark :: right) : key <+: t := by
    obtain ⟨after, same⟩ := starts
    obtain ⟨middle, rfl, _⟩ := append_eq_of_not_mem lacks same
    exact List.prefix_append _ _
  induction left using scan_induction occupied with
  | nil =>
    have none : ¬ key <+: mark :: right := fun starts => occupied (List.prefix_nil.mp (@within [] starts))
    rw [List.nil_append, replaceKey_copied none, countKey_copied none, replaceKey, countKey, Nat.zero_add]
    exact ⟨rfl, rfl⟩
  | met left ih =>
    rw [List.append_assoc, replaceKey_met occupied, replaceKey_met occupied, countKey_met occupied,
      countKey_met occupied, ih.1, ih.2, List.append_assoc]
    exact ⟨rfl, by omega⟩
  | copied u left here ih =>
    have none : ¬ key <+: u :: (left ++ mark :: right) := fun starts => here (@within (u :: left) starts)
    rw [List.cons_append, replaceKey_copied none, replaceKey_copied here, countKey_copied none, countKey_copied here,
      ih.1, ih.2]
    exact ⟨rfl, rfl⟩

end

namespace Phrase

section

variable {mark : UInt16}

theorem rewrite_between {phrase : Phrase} (filled : phrase.key ≠ []) (lacks : phrase.active = true → mark ∉ phrase.key)
    (left right : Text) :
    phrase.rewrite (left ++ mark :: right) = phrase.rewrite left ++ mark :: phrase.rewrite right ∧
      phrase.replaced (left ++ mark :: right) = phrase.replaced left + phrase.replaced right := by
  by_cases active : phrase.active = true
  · simp only [rewrite_of_active active, replaced_of_active active]
    exact replaceKey_between filled (lacks active) left right
  · simp only [rewrite_of_not_active active, replaced_of_not_active active, and_self]

/-- The unit parts what each phrase is given, because the phrase before it has left the unit where it was. -/
theorem run_between {phrases : List Phrase} (filled : ∀ phrase ∈ phrases, phrase.key ≠ [])
    (lacks : ∀ phrase ∈ phrases, phrase.active = true → mark ∉ phrase.key) (left right : Text) :
    run phrases (left ++ mark :: right) = run phrases left ++ mark :: run phrases right ∧
      total phrases (left ++ mark :: right) = total phrases left + total phrases right := by
  induction phrases generalizing left right with
  | nil => exact ⟨rfl, rfl⟩
  | cons phrase phrases ih =>
    rw [List.forall_mem_cons] at filled lacks
    obtain ⟨text, count⟩ := rewrite_between filled.1 lacks.1 left right
    obtain ⟨later, rest⟩ := ih filled.2 lacks.2 (phrase.rewrite left) (phrase.rewrite right)
    refine ⟨by rw [run, text, later, run, run], ?_⟩
    rw [total, total, total, text, count, rest]
    omega

end

end Phrase

namespace PhraseTable

section

variable (table : PhraseTable)

theorem apply_line {line : Text} (single : lineFeed ∉ line) :
    table.apply line = ⟨Phrase.run table.entries line, Phrase.total table.entries line⟩ := by
  rw [Plan.apply_table, split_free single]
  simp [join]

theorem apply_nil : table.apply [] = ⟨[], 0⟩ := by
  have none : Phrase.total table.entries [] = 0 := by
    rw [Phrase.total_eq_zero_iff table.keys_ne_nil]
    intro phrase member _ occurs
    exact table.keys_ne_nil phrase member (List.infix_nil.mp occurs)
  rw [apply_line table List.not_mem_nil, Phrase.run_of_total_eq_zero table.keys_ne_nil none, none]

theorem apply_lineFeed (left right : Text) :
    table.apply (left ++ lineFeed :: right) = (table.apply left).beside lineFeed (table.apply right) := by
  have some (t : Text) : (split lineFeed t).map (Phrase.run table.entries) ≠ [] :=
    mt List.map_eq_nil_iff.mp (split_ne_nil t)
  rw [Plan.apply_table, split_between, List.map_append, List.map_append, join_append (some left) (some right),
    List.sum_append, Plan.apply_table, Plan.apply_table]
  rfl

variable {table} {mark : UInt16} (lacks : ∀ phrase ∈ table.entries, phrase.active = true → mark ∉ phrase.key)
include lacks

/-- The first line on the right belongs to the line on the left, and the unit parts the two. -/
theorem apply_line_between (other : lineFeed ≠ mark) {line : Text} (single : lineFeed ∉ line) (right : Text) :
    table.apply (line ++ mark :: right) = (table.apply line).beside mark (table.apply right) := by
  have alone {back : Text} (inBack : lineFeed ∉ back) :
      table.apply (line ++ mark :: back) = (table.apply line).beside mark (table.apply back) := by
    have whole : lineFeed ∉ line ++ mark :: back := by simp [single, other, inBack]
    obtain ⟨text, count⟩ := Phrase.run_between table.keys_ne_nil lacks line back
    rw [apply_line table whole, apply_line table single, apply_line table inBack, text, count]
    rfl
  by_cases inRight : lineFeed ∈ right
  · obtain ⟨first, rest, rfl, clean⟩ := List.eq_append_cons_of_mem inRight
    rw [← List.cons_append, ← List.append_assoc, apply_lineFeed, alone clean, apply_lineFeed, Count.beside_assoc]
  · exact alone inRight

theorem apply_between (left right : Text) :
    table.apply (left ++ mark :: right) = (table.apply left).beside mark (table.apply right) := by
  by_cases feed : lineFeed = mark
  · subst feed
    exact apply_lineFeed table left right
  induction measure : left.length using Nat.strongRecOn generalizing left with
  | ind size ih =>
    by_cases inLeft : lineFeed ∈ left
    · obtain ⟨first, rest, rfl⟩ := List.append_of_mem inLeft
      have shorter : rest.length < size := by
        rw [List.length_append, List.length_cons] at measure
        omega
      rw [List.append_assoc, List.cons_append, apply_lineFeed, ih _ shorter rest rfl, apply_lineFeed,
        Count.beside_assoc]
    · exact apply_line_between lacks feed inLeft right

end

/-- A table that has a carriage return in no active key rewrites what stands between the ends of lines, and leaves
these ends as they are. -/
theorem apply_join_crlf {table : PhraseTable}
    (lacks : ∀ phrase ∈ table.entries, phrase.active = true → carriageReturn ∉ phrase.key) (lines : List Text) :
    table.apply (join [carriageReturn, lineFeed] lines) =
      ⟨join [carriageReturn, lineFeed] (lines.map fun line => (table.apply line).text),
        (lines.map fun line => (table.apply line).count).sum⟩ := by
  induction lines with
  | nil => exact apply_nil table
  | cons line lines ih =>
    cases lines with
    | nil => simp [join]
    | cons next lines =>
      have parts : join [carriageReturn, lineFeed] (line :: next :: lines) =
          line ++ carriageReturn :: ([] ++ lineFeed :: join [carriageReturn, lineFeed] (next :: lines)) :=
        join_cons line (List.cons_ne_nil next lines)
      have written : join [carriageReturn, lineFeed] ((line :: next :: lines).map fun line => (table.apply line).text) =
          (table.apply line).text ++ carriageReturn :: ([] ++ lineFeed ::
            join [carriageReturn, lineFeed] ((next :: lines).map fun line => (table.apply line).text)) :=
        join_cons _ (List.cons_ne_nil _ _)
      rw [parts, apply_between lacks, apply_lineFeed, apply_nil, ih, written]
      simp only [Count.beside, List.map_cons, List.sum_cons, Nat.zero_add]

/-- A table works on each side of a unit for itself, if the unit is a line feed or no active key has it. So it keeps
the ends of lines that begin with a carriage return, unless an active key has one, whatever the values hold. -/
theorem apply_separated (table : PhraseTable) :
    (∀ mark, mark = lineFeed ∨ (∀ phrase ∈ table.entries, phrase.active = true → mark ∉ phrase.key) →
      ∀ left right, table.apply (left ++ mark :: right) =
        ⟨(table.apply left).text ++ mark :: (table.apply right).text,
          (table.apply left).count + (table.apply right).count⟩) ∧
    ((∀ phrase ∈ table.entries, phrase.active = true → carriageReturn ∉ phrase.key) →
      ∀ lines, table.apply (join [carriageReturn, lineFeed] lines) =
        ⟨join [carriageReturn, lineFeed] (lines.map fun line => (table.apply line).text),
          (lines.map fun line => (table.apply line).count).sum⟩) := by
  refine ⟨?_, apply_join_crlf⟩
  rintro mark (rfl | lacks) left right
  · exact apply_lineFeed table left right
  · exact apply_between lacks left right

/-- The values write both separators, and an entry that is never applied has one of them as its key. -/
theorem apply_separated_written :
    ∃ table : PhraseTable,
      table.entries = [⟨units "a", units "b-\r\n"⟩, ⟨units "b", units ","⟩, ⟨units "-", units "-"⟩] ∧
      table.apply (units "ab-ba") = ⟨units ",-\r\n,-,,-\r\n", 6⟩ ∧
      table.apply (units "ab\r\nb\r\n") = ⟨units ",-\r\n,\r\n,\r\n", 4⟩ := by
  refine ⟨⟨[⟨units "a", units "b-\r\n"⟩, ⟨units "b", units ","⟩, ⟨units "-", units "-"⟩], by decide, by decide⟩, rfl,
    ?_, ?_⟩
  · exact ((apply_separated _).1 hyphen (.inr (by decide)) (units "ab") (units "ba")).trans (by decide)
  · exact ((apply_separated _).2 (by decide) [units "ab", units "b", []]).trans (by decide)

end PhraseTable

end Emend
