import Emend.Proofs.CheckMode
import Emend.Proofs.RunReads

/-! One file in two runs, one after the other. Of what was replaced the new text is read, and that is settled. What was
not to be written is still so, and what kept a file from being written keeps it from that again. -/

namespace Emend

open Text FileError

namespace Corpus

theorem ascii_ending {token : Text} (plain : isToken token = true) {u : UInt16} (member : u ∈ ending token) :
    u.toNat < 0x80 := by
  have fixed : (units ".rulecast-" ++ units ".tmp").all (fun v => decide (v.toNat < 0x80)) = true := by decide
  rw [ending, List.mem_append, List.mem_append] at member
  rcases member with (before | inside) | after
  · exact of_decide_eq_true (List.all_eq_true.mp fixed u (List.mem_append_left _ before))
  · have unit := List.all_eq_true.mp plain u inside
    simp only [isDigit, isLower, Bool.or_eq_true, Bool.and_eq_true, decide_eq_true_eq, beq_iff_eq,
      UInt16.le_iff_toNat_le, UInt16.reduceToNat] at unit
    rcases unit with (digit | letter) | rfl
    · omega
    · omega
    · decide
  · exact of_decide_eq_true (List.all_eq_true.mp fixed u (List.mem_append_right _ after))

variable {token other : Text} (plain : isToken token = true) (plainToo : isToken other = true)
  (level : other.length = token.length)

include level

/-- How long the path of a sibling is depends on the length of the token alone. -/
theorem isLong_sibling (front : Path) (name : Name) :
    (front.child (sibling other plainToo name)).isLong = (front.child (sibling token plain name)).isLong := by
  have last (name : Name) : (front.child name).names.getLast? = some name := by simp [Path.child]
  have long {token : Text} (plain : isToken token = true) : (front.child (sibling token plain name)).isLong =
      (decide (Tree.pathLimit ≤ (Utf8.encode (front.front ++ [dot] ++ name.text ++ ending token)).length) ||
        decide (Tree.nameLimit < (Utf8.encode ([dot] ++ name.repaired.text ++ ending token)).length)) := by
    rw [Path.isLong, last, Option.any_some, sibling_repaired, Path.toText_child, sibling, sibling, ← List.append_assoc,
      ← List.append_assoc]
  have ends : (ending other).length = (ending token).length := by
    simp only [ending, List.length_append, level]
  have same (t : Text) : (Utf8.encode (t ++ ending other)).length = (Utf8.encode (t ++ ending token)).length := by
    rw [Utf8.length_encode_append t fun _ => ascii_ending plainToo,
      Utf8.length_encode_append t fun _ => ascii_ending plain, ends]
  rw [long plain, long plainToo, same, same]

include plain plainToo

theorem isLong_temporaryPath {tree : Tree} {shown place : Path} (site : Site tree shown place) :
    (Path.ofText (temporaryPath other shown.toText)).isLong =
      (Path.ofText (temporaryPath token shown.toText)).isLong := by
  cases site with
  | @mk front directory name reach =>
    rw [temporaryPath_child plain, temporaryPath_child plainToo, Path.ofText, Path.ofText, Path.resolve_toText,
      Path.resolve_toText]
    exact isLong_sibling plain plainToo level front name

end Corpus

/-- The file of a failure, and what could not be done to it. -/
def FileFailure.subject (failure : FileFailure) : Text × Phase := (failure.file, failure.phase)

/-- The same calls are refused, if not for the same reason. -/
def Refusals.Alike (one other : Refusals) : Prop := ∀ call, (one call).isSome = (other call).isSome

namespace Corpus

section

variable {refusals refusalsToo : Refusals} {hook : Hook} {space after : Workspace} {options : FileOptions} {path : Text}

theorem outlook_decoded {bytes : Bytes} {text : Text} (read : space.readFile path = .ok bytes)
    (decoded : decodeLosslessly bytes options.encoding path = .ok text) :
    (outlook space options path).failure? = none := by
  have file : decodeFile path options.encoding bytes = .ok ⟨path, bytes, text⟩ := by
    simp only [decodeFile, decoded]
    rfl
  simp only [outlook, read, file]
  split <;> rfl

theorem reading_eq_none (changes : (outlookUnder refusals space options path).change? ≠ none) :
    refusals.reading = none ∧ outlookUnder refusals space options path = outlook space options path := by
  rw [outlookUnder] at changes ⊢
  cases reads : refusals.reading with
  | none => exact ⟨rfl, rfl⟩
  | some refusal =>
    rw [reads] at changes
    exact absurd rfl changes

/-- Reading a file that is as it was tells the same, though it may fail for another reason. -/
theorem outlookUnder_again (alike : refusalsToo.Alike refusals) (unread : after.readFile path = space.readFile path) :
    (outlookUnder refusalsToo after options path).change? = (outlookUnder refusals space options path).change? ∧
      (outlookUnder refusalsToo after options path).failure?.map FileFailure.subject =
        (outlookUnder refusals space options path).failure?.map FileFailure.subject := by
  have reading : refusalsToo.reading.isSome = refusals.reading.isSome := alike 0
  rw [outlookUnder, outlookUnder, outlook, outlook, unread]
  cases reads : refusals.reading with
  | none =>
    rw [reads, Option.isSome_none, Option.isSome_eq_false_iff, Option.isNone_iff_eq_none] at reading
    rw [reading]
    exact ⟨rfl, rfl⟩
  | some refusal =>
    rw [reads, Option.isSome_some, Option.isSome_iff_exists] at reading
    obtain ⟨other, readsToo⟩ := reading
    rw [readsToo]
    exact ⟨rfl, rfl⟩

/-- Something is in the way where one of the calls is refused up to the one that moves the sibling, or its path is too
long. -/
theorem isSome_obstacle? (refusals : Refusals) (temporary path : Text) : (obstacle? refusals temporary path).isSome =
    ((refusals 1).isSome || (refusals 2).isSome || (refusals 3).isSome || (Path.ofText temporary).isLong ||
      (refusals 4).isSome) := by
  rw [obstacle?_eq]
  cases refusals 1 with
  | some refusal => rfl
  | none =>
    cases refusals 2 with
    | some refusal => rfl
    | none =>
      cases refusals 3 with
      | none => cases (Path.ofText temporary).isLong <;> cases refusals 4 <;> rfl
      | some refusal =>
        obtain ⟨error, begun⟩ := refusal
        cases begun <;> cases (Path.ofText temporary).isLong <;> rfl

/-- Whether a file is kept from being written does not change while the caller answers as before, the same calls are
refused, and the sibling has a path of the same length. -/
theorem hindrance?_again (steady : hook.Steady) (alike : refusalsToo.Alike refusals) {token other : Text} (file : File)
    (level : (Path.ofText (temporaryPath other file.path)).isLong = (Path.ofText (temporaryPath token file.path)).isLong)
    (encoding revised : Text) :
    (hindrance? refusalsToo hook after other encoding file revised).isSome =
      (hindrance? refusals hook space token encoding file revised).isSome := by
  rw [hindrance?, hindrance?, steady.same after space]
  cases (hook space ⟨file.path, file.text, revised⟩).2 with
  | error fault => rfl
  | ok =>
    cases encodeLosslessly revised encoding file.path with
    | error error => rfl
    | ok encoded =>
      simp only [isSome_obstacle?, level, alike 1, alike 2, alike 3, alike 4]

variable {token other : Text} {written writtenToo : Option Bytes} {outcome outcomeToo : FileOutcome}

/-- Where the revision of a text is settled, a second run writes nothing and has the same files to fail on. -/
theorem Foretells.again (steady : hook.Steady) (alike : refusalsToo.Alike refusals)
    (first : Foretells refusals hook space options token path (outlookUnder refusals space options path) written outcome)
    (rereads : Rereads space after path written)
    (second : Foretells refusalsToo hook after options other path (outlookUnder refusalsToo after options path)
      writtenToo outcomeToo)
    (level : (Path.ofText (temporaryPath other path)).isLong = (Path.ofText (temporaryPath token path)).isLong)
    (settles : ∀ bytes text, space.readFile path = .ok bytes →
      decodeLosslessly bytes options.encoding path = .ok text →
      (options.plan.revise (options.plan.revise text).text).changed = false) :
    writtenToo = none ∧ outcomeToo.change? = none ∧
      outcomeToo.failure?.map FileFailure.subject = outcome.failure?.map FileFailure.subject := by
  generalize told : outlookUnder refusals space options path = before at first
  generalize toldToo : outlookUnder refusalsToo after options path = now at second
  have unsettled {file : File} {text : Text} (changed : (options.plan.revise text).changed = true) :
      (options.matched file (options.plan.revise text)).change? ≠ none := by
    obtain ⟨report, reported, _⟩ := options.matched_changed file changed
    rw [reported]
    exact Option.some_ne_none report
  cases first with
  | settled unchanged =>
    obtain ⟨changes, fails⟩ := outlookUnder_again alike rereads
    rw [told, toldToo] at changes fails
    rw [unchanged] at changes
    cases second with
    | settled => exact ⟨rfl, changes, fails⟩
    | hindered _ _ changed | written _ _ changed => exact absurd changes (unsettled changed)
  | @hindered bytes text failure read decoded changed stopped =>
    have readToo : after.readFile path = .ok bytes := Eq.trans rereads read
    obtain ⟨changes, _⟩ := outlookUnder_again alike rereads
    rw [told, toldToo] at changes
    cases second with
    | settled unchanged => exact absurd (changes.symm.trans unchanged) (unsettled changed)
    | hindered => exact ⟨rfl, rfl, rfl⟩
    | @written own encoded textToo readAgain decodedToo _ clear =>
      obtain rfl := Except.ok.inj (readToo.symm.trans readAgain)
      obtain rfl := Except.ok.inj (decoded.symm.trans decodedToo)
      have still : (hindrance? refusalsToo hook after other options.encoding ⟨path, bytes, text⟩
          (options.plan.revise text).text).isSome = (hindrance? refusals hook space token options.encoding
          ⟨path, bytes, text⟩ (options.plan.revise text).text).isSome :=
        hindrance?_again steady alike ⟨path, bytes, text⟩ level options.encoding _
      rw [stopped, clear] at still
      cases still
  | @written bytes encoded text read decoded changed _ holds =>
    have readToo : after.readFile path = .ok encoded := rereads
    have back : decodeLosslessly encoded options.encoding path = .ok (options.plan.revise text).text :=
      decodeLosslessly_eq_ok_iff.mpr (encodeLosslessly_eq_ok_iff.mp holds)
    have still {own : Bytes} {textToo : Text} (readAgain : after.readFile path = .ok own)
        (decodedToo : decodeLosslessly own options.encoding path = .ok textToo) :
        (options.plan.revise textToo).changed = false := by
      obtain rfl := Except.ok.inj (readToo.symm.trans readAgain)
      obtain rfl := Except.ok.inj (back.symm.trans decodedToo)
      exact settles bytes text read decoded
    cases second with
    | settled unchanged =>
      have reading : refusalsToo.reading.isSome = refusals.reading.isSome := alike 0
      have changes : (outlookUnder refusals space options path).change? ≠ none := told ▸ unsettled changed
      rw [(reading_eq_none changes).1, Option.isSome_none, Option.isSome_eq_false_iff,
        Option.isNone_iff_eq_none] at reading
      refine ⟨rfl, unchanged, ?_⟩
      rw [← toldToo, outlookUnder, reading]
      simp only [outlook_decoded readToo back]
      rfl
    | hindered readAgain decodedToo changed | written readAgain decodedToo changed =>
      cases changed.symm.trans (still readAgain decodedToo)

end

end Corpus

end Emend
