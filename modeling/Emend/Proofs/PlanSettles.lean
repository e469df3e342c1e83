import Emend.Proofs.PresetPhrases
import Mathlib.Data.Prod.Lex
import Mathlib.Order.WellFounded

/-! Runs of the message rules and of the phrases of comments, one after the other, come to an end. A phrase takes away
units outside of ASCII, and a rule, which adds none, takes away beginnings of messages. A phrase may write the
beginning of a message, so the beginnings are counted after the units. -/

namespace Emend

open Text Message

/-- What is left for runs to do: units outside of ASCII, and then beginnings of messages. -/
def Text.residue (t : Text) : ℕ ×ₗ ℕ := toLex (foreign t, beginnings t)

namespace Plan

/-- Where every run that does anything leaves less to do, some run does nothing. -/
theorem exists_untouched {plan : Plan}
    (descends : ∀ t, ¬ (plan.revise t).untouched = true → (plan.revise t).text.residue < t.residue) (t : Text) :
    ∃ count revision, (plan.revisions t count).getLast? = some revision ∧ revision.untouched = true := by
  induction left : t.residue using WellFoundedLT.induction generalizing t with
  | ind residue ih =>
    by_cases untouched : (plan.revise t).untouched = true
    · exact ⟨1, plan.revise t, rfl, untouched⟩
    · have less := descends t untouched
      rw [left] at less
      obtain ⟨count, revision, last, settled⟩ := ih _ less _ rfl
      refine ⟨count + 1, revision, ?_, settled⟩
      rw [revisions, List.getLast?_cons, last]
      rfl

/-- A run that does anything leaves less to do: a phrase counts by the units it takes away, a rule by the beginnings. -/
theorem residue_lt_of_touched {plan : Plan}
    (shorten : ∀ rule ∈ plan.rules, ∃ manner ending, Shortens manner ending rule)
    (flat : ∀ phrase ∈ phrases plan.tables, lineFeed ∉ phrase.value)
    (lighter : ∀ phrase ∈ phrases plan.tables, phrase.active = true → foreign phrase.value < foreign phrase.key)
    {t : Text} (touched : ¬ (plan.revise t).untouched = true) : (plan.revise t).text.residue < t.residue := by
  have uses := uses_applyAll shorten t
  have additive (a b : Text) : (foreign (a ++ b) : Int) = foreign a + foreign b := by
    rw [foreign_append]
    push_cast
    rfl
  have falls := @weight_applyTables _ flat (fun t => foreign t) additive
    (fun phrase member active => Int.ofNat_lt.mpr (lighter phrase member active)) (Rule.applyAll plan.rules t).text
  rw [Revision.untouched_iff, revise] at touched
  rw [revise]
  apply Prod.Lex.toLex_lt_toLex.mpr
  by_cases replaced : (applyTables plan.tables (Rule.applyAll plan.rules t).text).count = 0
  · -- Without a replacement, the rules have found something.
    have less := uses.fewer fun none => touched ⟨none, replaced⟩
    dsimp only
    rw [applyTables_of_count_eq_zero replaced]
    rcases Nat.lt_or_eq_of_le uses.foreign with fewer | equal
    · exact .inl fewer
    · exact .inr ⟨equal, less⟩
  · left
    have kept := uses.foreign
    dsimp only at falls ⊢
    omega

/-- The message rules with the phrases of comments: each run that does anything leaves less to do, so after some runs
there is nothing to do. -/
theorem messageText_zhEnComments_settles : ∃ rules table, Preset.messageText.compileRules = .ok rules ∧
    Preset.zhEnComments.table = .ok table ∧ ∀ t,
      ((revise ⟨rules, [table]⟩ t).structural ≠ 0 ∨ (revise ⟨rules, [table]⟩ t).phrases ≠ 0 →
        (revise ⟨rules, [table]⟩ t).text.residue < t.residue) ∧
      ∃ count revision, (revisions ⟨rules, [table]⟩ t count).getLast? = some revision ∧
        revision.structural = 0 ∧ revision.phrases = 0 := by
  obtain ⟨first, second, third, compiles, isFirst, isSecond, isThird⟩ := exists_messageRules
  have comments : Preset.zhEnComments ∈ Preset.chain := List.mem_cons_self
  obtain ⟨table, gathers, entries⟩ := Preset.exists_table comments
  refine ⟨[first, second, third], table, compiles, gathers, ?_⟩
  have shorten : ∀ rule ∈ [first, second, third], ∃ manner ending, Shortens manner ending rule := by
    simp only [List.forall_mem_cons]
    exact ⟨⟨_, _, isFirst⟩, ⟨_, _, isSecond⟩, ⟨_, _, isThird⟩, List.forall_mem_nil _⟩
  have inside {phrase : Phrase} (member : phrase ∈ phrases [table]) : phrase ∈ Preset.zhEnComments.items := by
    apply PhraseTable.mem_of_mem_gather
    rwa [phrases, List.flatMap_singleton, entries] at member
  have translation {phrase : Phrase} (member : phrase ∈ phrases [table]) : phrase.isTranslation = true :=
    Preset.chain_translates.1 phrase (List.mem_flatMap.mpr ⟨_, comments, inside member⟩)
  have descends : ∀ t, ¬ (revise ⟨[first, second, third], [table]⟩ t).untouched = true →
      (revise ⟨[first, second, third], [table]⟩ t).text.residue < t.residue := by
    intro t touched
    apply residue_lt_of_touched shorten _ _ touched
    · intro phrase member
      exact Phrase.lineFeed_not_mem_of_isTranslation (translation member)
    · intro phrase member active
      rw [Phrase.foreign_value_of_isTranslation (translation member)]
      apply List.countP_pos_iff.mpr
      exact List.any_eq_true.mp (Preset.key_foreign_of_mem_comments phrase (inside member) active)
  intro t
  constructor
  · intro some
    apply descends
    rw [Revision.untouched_iff, not_and_or]
    exact some
  · obtain ⟨count, revision, last, untouched⟩ := exists_untouched descends t
    exact ⟨count, revision, last, Revision.untouched_iff.mp untouched⟩

end Plan

end Emend
