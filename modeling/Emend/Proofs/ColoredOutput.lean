import Emend.Proofs.StyleCodes

/-! The output of the commands at any level of style leaves, with its codes deleted, the output at level zero. Figures
are written without an escape, so only names, messages and descriptions could bring one in. -/

namespace Emend

open Text Style

theorem escape_not_mem_digits {t : Text} (digits : ∀ u ∈ t, isDigit u = true) : escape ∉ t := by
  intro member
  exact absurd (digits escape member) (by decide)

theorem escape_not_mem_join {separator : Text} {pieces : List Text} (free : escape ∉ separator)
    (each : ∀ piece ∈ pieces, escape ∉ piece) : escape ∉ join separator pieces := by
  intro member
  rcases mem_join member with between | ⟨piece, among, inside⟩
  · exact free between
  · exact each piece among inside

namespace Binary64

theorem isDigit_of_mem_shortest {significand : Nat} {exponent : Int} {u : UInt16}
    (member : u ∈ (shortest significand exponent).digits) : isDigit u = true := by
  simp only [shortest] at member
  split at member
  · cases member
  next value places _ =>
    have written : u ∈ Text.ofNat value := by
      have kept := List.mem_reverse.mp member
      exact List.mem_reverse.mp ((List.dropWhile_sublist _).subset kept)
    exact isDigit_of_mem_ofNat written

theorem escape_not_mem_signedInt (n : Int) : escape ∉ signedInt n := by
  apply List.not_mem_append
  · split <;> decide
  · exact escape_not_mem_digits fun u => isDigit_of_mem_ofNat

theorem Digits.escape_not_mem_toText {number : Digits} (digits : ∀ u ∈ number.digits, isDigit u = true) :
    escape ∉ number.toText := by
  have own : escape ∉ number.digits := escape_not_mem_digits digits
  have zeros (n : Nat) : escape ∉ List.replicate n Text.zero := by
    intro member
    exact absurd (List.eq_of_mem_replicate member) (by decide)
  have front (n : Nat) : escape ∉ number.digits.take n := fun member => own (List.mem_of_mem_take member)
  have back (n : Nat) : escape ∉ number.digits.drop n := fun member => own (List.mem_of_mem_drop member)
  have point : escape ∉ units "." := by decide
  have lead : escape ∉ units "0." := by decide
  have power : escape ∉ units "e" := by decide
  rw [toText]
  simp only
  split
  · exact List.not_mem_append own (zeros _)
  · split
    · exact List.not_mem_append (List.not_mem_append (front _) point) (back _)
    · split
      · exact List.not_mem_append (List.not_mem_append lead (zeros _)) own
      · have sign := escape_not_mem_signedInt (number.point - 1)
        refine List.not_mem_append (List.not_mem_append (List.not_mem_append (front 1) ?_) power) sign
        split
        · exact List.not_mem_nil
        · exact List.not_mem_append point (back 1)

theorem escape_not_mem_toText (number : Binary64) : escape ∉ number.toText := by
  cases number with
  | nan => decide
  | infinity negative => cases negative <;> decide
  | finite negative significand exponent =>
    rw [toText]
    split
    · decide
    · apply List.not_mem_append
      · split <;> decide
      · exact Digits.escape_not_mem_toText fun u => isDigit_of_mem_shortest

end Binary64

section

variable {κ δ : Type} [Figure κ]

theorem Figure.escape_not_mem_toText (figure : κ) : escape ∉ Figure.toText figure :=
  Binary64.escape_not_mem_toText _

theorem Figure.escape_not_mem_counted (figure : κ) {one many : String} (plain : escape ∉ units one)
    (plainToo : escape ∉ units many) : escape ∉ Figure.counted figure one many := by
  apply List.not_mem_append
  · exact List.not_mem_append (escape_not_mem_toText figure) (by decide)
  · rw [word]
    split
    · exact plain
    · exact plainToo

theorem FileReport.line_leaves {report : FileReport κ δ} (named : escape ∉ report.file) (preview : Bool) :
    Leaves (report.line true preview) (report.line false preview) := by
  have marker : escape ∉ units (if preview then "~" else "M") := by cases preview <;> decide
  have counts : escape ∉ units "structural=" ++ Figure.toText report.structural ++ units " phrases=" ++
      Figure.toText report.phrases := by
    apply List.not_mem_append
    · apply List.not_mem_append
      · exact List.not_mem_append (by decide) (Figure.escape_not_mem_toText _)
      · decide
    · exact Figure.escape_not_mem_toText _
  have gap : Leaves (units " ") (units " ") := .plain (by decide)
  have wide : Leaves (units "  ") (units "  ") := .plain (by decide)
  exact ((((green_coded.paint_leaves marker).append gap).append (bold_coded.paint_leaves named)).append wide).append
    (gray_coded.paint_leaves counts)

theorem FileFailure.line_leaves {failure : FileFailure} (named : escape ∉ failure.file)
    (told : escape ∉ failure.message) : Leaves (failure.line true) (failure.line false) := by
  have phase : escape ∉ failure.phase.name := by cases failure.phase <;> decide
  apply red_coded.paint_leaves
  apply List.not_mem_append
  · apply List.not_mem_append
    · apply List.not_mem_append
      · exact List.not_mem_append (List.not_mem_append (by decide) named) (by decide)
      · exact phase
    · decide
  · exact told

theorem Tally.escape_not_mem_summary (tally : Tally κ δ) : escape ∉ tally.summary := by
  apply escape_not_mem_join (by decide)
  intro piece member
  simp only [List.mem_append, List.mem_cons, List.not_mem_nil, or_false] at member
  rcases member with ((rfl | rfl | rfl) | failed) | preview
  · apply List.not_mem_append
    · apply List.not_mem_append
      · exact List.not_mem_append (Figure.escape_not_mem_counted _ (by decide) (by decide)) (by decide)
      · exact Figure.escape_not_mem_toText _
    · decide
  · exact Figure.escape_not_mem_counted _ (by decide) (by decide)
  · exact Figure.escape_not_mem_counted _ (by decide) (by decide)
  · split at failed
    · cases failed
    · obtain rfl := List.mem_singleton.mp failed
      exact List.not_mem_append (escape_not_mem_digits fun u => isDigit_of_mem_ofNat) (by decide)
  · split at preview
    · obtain rfl := List.mem_singleton.mp preview
      decide
    · cases preview

/-- Lines that are made for the same things leave one another if those for each thing do. -/
theorem Style.Leaves.lines {α : Type} {line plain : α → Text} {things : List α}
    (each : ∀ thing ∈ things, Leaves (line thing) (plain thing)) :
    List.Forall₂ Leaves (things.map line) (things.map plain) := by
  rw [List.forall₂_map_left_iff, List.forall₂_map_right_iff]
  exact List.forall₂_same.mpr each

theorem Tally.format_leaves {tally : Tally κ δ} (named : ∀ report ∈ tally.files, escape ∉ report.file)
    (told : ∀ failure ∈ tally.failures, escape ∉ failure.file ∧ escape ∉ failure.message) :
    Leaves (tally.format true) (tally.format false) := by
  have idle : Leaves (Style.gray.paint true (units "No changes.")) (Style.gray.paint false (units "No changes.")) :=
    gray_coded.paint_leaves (by decide)
  have totals := gray_coded.paint_leaves tally.escape_not_mem_summary
  apply Leaves.join (by decide)
  refine List.rel_append (List.rel_append (List.rel_append ?_ ?_) ?_) ?_
  · apply Leaves.lines
    intro report member
    exact FileReport.line_leaves (named report (List.mem_filter.mp member).1) tally.preview
  · apply Leaves.lines
    intro failure member
    exact FileFailure.line_leaves (told failure member).1 (told failure member).2
  · split
    · exact .cons idle .nil
    · exact .nil
  · exact .cons totals .nil

end

namespace PresetInfo

theorem escape_not_mem_padEnd {t : Text} (free : escape ∉ t) (width : Nat) : escape ∉ padEnd width t := by
  apply List.not_mem_append free
  intro member
  exact absurd (List.eq_of_mem_replicate member) (by decide)

theorem line_leaves {preset : PresetInfo} (named : escape ∉ preset.name) (described : escape ∉ preset.description)
    (width : Nat) : Leaves (preset.line true width) (preset.line false width) := by
  have option : escape ∉ flag preset.kind := by cases preset.kind <;> decide
  have gap : Leaves (units " ") (units " ") := .plain (by decide)
  have name := bold_coded.paint_leaves (escape_not_mem_padEnd named width)
  apply (((gray_coded.paint_leaves option).append gap).append name).append
  split
  · exact .nil
  · exact .plain (List.not_mem_append (by decide) described)

theorem format_leaves {presets : List PresetInfo}
    (plain : ∀ preset ∈ presets, escape ∉ preset.name ∧ escape ∉ preset.description) :
    Leaves (format true presets) (format false presets) := by
  rw [format, format]
  split
  · exact gray_coded.paint_leaves (by decide)
  · apply Leaves.join (by decide)
    apply Leaves.lines
    intro preset member
    exact line_leaves (plain preset member).1 (plain preset member).2 _

end PresetInfo

/-- Color adds codes only. Whatever a report or a list of presets holds, as long as its texts hold no escape: the output
at a level of style is the output at level zero once its codes are deleted. -/
theorem withoutCodes_format {level : Nat} (styled : 1 ≤ level) :
    (∀ (κ δ : Type) [Figure κ] (tally : Tally κ δ), (∀ report ∈ tally.files, escape ∉ report.file) →
      (∀ failure ∈ tally.failures, escape ∉ failure.file ∧ escape ∉ failure.message) →
      withoutCodes 0 (tally.format (coloredAt level)) = tally.format (coloredAt 0)) ∧
    ∀ presets : List PresetInfo, (∀ preset ∈ presets, escape ∉ preset.name ∧ escape ∉ preset.description) →
      withoutCodes 0 (PresetInfo.format (coloredAt level) presets) = PresetInfo.format (coloredAt 0) presets := by
  have colored : coloredAt level = true := decide_eq_true styled
  have plain : coloredAt 0 = false := rfl
  rw [colored, plain]
  constructor
  · intro κ δ _ tally named told
    exact (Tally.format_leaves named told).result
  · intro presets texts
    exact (PresetInfo.format_leaves texts).result

/-- A file whose name goes over two lines, and one that has failed with a message of two. -/
private def tornTally : Tally :=
  { scope := units "/d", preview := false, scanned := 2, matched := 1, changed := 1, structural := 0, phrases := 12
    files := [⟨units "a\r\nb.ts", true, 0, 12, 3⟩]
    failures := [⟨units "\nc.ts", .write, units "one\n\ntwo"⟩] }

private def tornPresets : List PresetInfo :=
  [⟨.rules, units "a\nb", [], units "/a.json"⟩, ⟨.phrases, [], units "one\r\ntwo", units "/b.json"⟩]

/-- The output is colored, and its line ends stand between codes. -/
theorem withoutCodes_format_torn :
    withoutCodes 0 (tornTally.format (coloredAt 3)) = tornTally.format (coloredAt 0) ∧
      tornTally.format (coloredAt 3) ≠ tornTally.format (coloredAt 0) ∧
      withoutCodes 0 (PresetInfo.format (coloredAt 1) tornPresets) = PresetInfo.format (coloredAt 0) tornPresets := by
  have styled : 1 ≤ 3 := by decide
  have report := (withoutCodes_format styled).1 Nat Int tornTally (by decide) (by decide)
  have presets := (withoutCodes_format (Nat.le_refl 1)).2 tornPresets (by decide)
  exact ⟨report, by decide +kernel, presets⟩

example : Style.red.paint true (units "a\nb") =
    units "\x1b[31ma\x1b[39m\n\x1b[31mb\x1b[39m" := by decide +kernel

end Emend
