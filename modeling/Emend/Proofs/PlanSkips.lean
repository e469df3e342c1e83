import Emend.Proofs.RevisionReplies
import Emend.Proofs.TablePasses

/-! A plan that counts nothing has done nothing. No match of a rule and no replacement of a phrase means that no pattern
matches and no key occurs, so that the text is its own revision, and a file with such a text is passed over safely. -/

namespace Emend

open Text

theorem Rule.apply_of_count_eq_zero {rule : Rule} {t : Text} (none : (rule.apply t).count = 0) :
    (rule.apply t).text = t := by
  have found : rule.pattern.matchesIn t = [] := List.length_eq_zero_iff.mp none
  rw [apply, found, replaceMatches]

namespace Plan

/-- No rule of a plan has a match in a text, and no line of it has the key of an active phrase. -/
structure Misses (plan : Plan) (t : Text) : Prop where
  rules : ∀ rule ∈ plan.rules, rule.pattern.matchesIn t = []
  phrases : ∀ table ∈ plan.tables, ∀ line ∈ split lineFeed t, ∀ phrase ∈ table.entries, phrase.active = true →
    ¬ phrase.key <:+: line

section

variable {plan : Plan} {t : Text}

theorem applyAll_of_count_eq_zero {rules : List Rule} (none : (Rule.applyAll rules t).count = 0) :
    (Rule.applyAll rules t).text = t :=
  @passes_of_count_eq_zero _ Rule.apply rules (fun _ _ _ => Rule.apply_of_count_eq_zero) t none

/-- A text is untouched if and only if there is nothing in it for the plan to do: what the rules have left is the text
itself as long as none of them has matched. -/
theorem untouched_iff_misses : (plan.revise t).untouched = true ↔ plan.Misses t := by
  have structural : (Rule.applyAll plan.rules t).count = 0 ↔ ∀ rule ∈ plan.rules, rule.pattern.matchesIn t = [] := by
    apply (@count_passes_eq_zero_iff _ Rule.apply plan.rules (fun _ _ _ => Rule.apply_of_count_eq_zero) t).trans
    exact forall₂_congr fun _ _ => List.length_eq_zero_iff
  have lexical (left : Text) : (applyTables plan.tables left).count = 0 ↔
      ∀ table ∈ plan.tables, ∀ line ∈ split lineFeed left, ∀ phrase ∈ table.entries, phrase.active = true →
        ¬ phrase.key <:+: line := by
    apply (@count_passes_eq_zero_iff _ PhraseTable.apply plan.tables
      (fun _ _ _ => apply_table_of_count_eq_zero) left).trans
    exact forall₂_congr fun table _ => count_apply_table_eq_zero_iff table left
  rw [Revision.untouched_iff, revise]
  constructor
  · intro none
    have same := applyAll_of_count_eq_zero none.1
    exact ⟨structural.mp none.1, same ▸ (lexical _).mp none.2⟩
  · intro misses
    have none := structural.mpr misses.rules
    have same := applyAll_of_count_eq_zero none
    exact ⟨none, (lexical _).mpr (same.symm ▸ misses.phrases)⟩

theorem revise_of_untouched (untouched : (plan.revise t).untouched = true) : plan.revise t = ⟨t, false, 0, 0⟩ := by
  obtain ⟨structural, phrases⟩ := Revision.untouched_iff.mp untouched
  have kept : (Rule.applyAll plan.rules t).text = t := applyAll_of_count_eq_zero structural
  have text : (plan.revise t).text = t := (applyTables_of_count_eq_zero phrases).trans kept
  have unchanged : (plan.revise t).changed = false := bne_eq_false_iff_eq.mpr text
  calc
    plan.revise t = ⟨(plan.revise t).text, (plan.revise t).changed, (plan.revise t).structural,
      (plan.revise t).phrases⟩ := rfl
    _ = ⟨t, false, 0, 0⟩ := by rw [text, unchanged, structural, phrases]

end

/-- A revision without matches and without replacements leaves the text and says so; there is nothing in the text for
the plan to do. Of a file that a run takes for unmatched the text is its own revision, and no call but the one that
reads it is made. -/
theorem revise_skips (plan : Plan) :
    (∀ t, (plan.revise t).structural = 0 → (plan.revise t).phrases = 0 →
      plan.revise t = ⟨t, false, 0, 0⟩ ∧ plan.Misses t) ∧
    ∀ (options : Corpus.FileOptions) token path replies, options.plan = plan →
      (Corpus.revise options token path).Comes replies .unmatched → ∃ bytes text,
        replies = [.read path (.ok bytes)] ∧ decodeLosslessly bytes options.encoding path = .ok text ∧
        plan.revise text = ⟨text, false, 0, 0⟩ := by
  constructor
  · intro t structural phrases
    have untouched := Revision.untouched_iff.mpr ⟨structural, phrases⟩
    exact ⟨revise_of_untouched untouched, untouched_iff_misses.mp untouched⟩
  · intro options token path replies own comes
    subst own
    cases Corpus.revising_of_comes comes with
    | @unmatched bytes text decoded untouched =>
      exact ⟨bytes, text, rfl, decoded, revise_of_untouched untouched⟩

/-- A key that stands for itself, and a key over two lines. -/
private def idlePlan : Plan := ⟨[], [⟨[⟨units "x", units "x"⟩, ⟨units "y\nz", units "w"⟩], by decide, by decide⟩]⟩

/-- Both keys occur in the text, and neither is replaced. -/
theorem revise_skips_idle :
    idlePlan.revise (units "xy\nz") = ⟨units "xy\nz", false, 0, 0⟩ ∧ ∃ bytes text,
      [Reply.read (units "/a.ts") (.ok (Utf8.encode (units "xy\nz")))] = [.read (units "/a.ts") (.ok bytes)] ∧
      decodeLosslessly bytes (units "utf8") (units "/a.ts") = .ok text ∧ idlePlan.revise text = ⟨text, false, 0, 0⟩ := by
  have decoded : decodeLosslessly (Utf8.encode (units "xy\nz")) (units "utf8") (units "/a.ts") = .ok (units "xy\nz") := by
    decide +kernel
  have untouched : (idlePlan.revise (units "xy\nz")).untouched = true := by decide +kernel
  have comes : (Corpus.revise ⟨idlePlan, units "/", units "utf8", false⟩ (units "0a-1f") (units "/a.ts")).Comes
      [.read (units "/a.ts") (.ok (Utf8.encode (units "xy\nz")))] .unmatched :=
    Corpus.comes_of_revising (.unmatched decoded untouched)
  have counts := Revision.untouched_iff.mp untouched
  exact ⟨((revise_skips idlePlan).1 _ counts.1 counts.2).1, (revise_skips idlePlan).2 _ _ _ _ rfl comes⟩

end Plan

end Emend
