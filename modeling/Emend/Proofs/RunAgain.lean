import Emend.Proofs.AlikeCorpora
import Emend.Proofs.RepeatedFiles

/-! A run after a run. Where a second revision of the text of a file changes nothing, a second run changes nothing: the
same files are collected, each is settled or is kept from being written as it was before, and so nothing is written. This
needs a caller who leaves files alone and does not change its mind, and a system that refuses the same calls again and
never so that a sibling stays behind. A file that another hand has changed while it was being revised is not overwritten
by that run, and it is rewritten by the next one. -/

namespace Emend

open Text FileError

/-- The system refuses the same to two runs, and never so that a sibling stays behind. -/
structure RunRefusals.Recurs (refusals refusalsToo : RunRefusals) : Prop where
  opening : refusalsToo.opening = refusals.opening
  alike : ∀ index, (refusalsToo.calls index).Alike (refusals.calls index)
  tidy : ∀ index, (refusals.calls index).Tidy
  tidyToo : ∀ index, (refusalsToo.calls index).Tidy

theorem RunRefusals.recurs_none : RunRefusals.none.Recurs .none where
  opening := rfl
  alike _ _ := rfl
  tidy _ := Refusals.tidy_none
  tidyToo _ := Refusals.tidy_none

namespace Corpus

theorem collect_file {refused : Text → Option Code} {space : Workspace} {selection : Selection} {files : List Path}
    {place : Path} {bytes : Bytes} {mode : Nat} (collected : collectUnder refused space selection = .ok files)
    (found : space.tree.find space.directory true
      ((space.directory.resolve selection.directory).resolve selection.scope).toText =
        .ok (.node place (.file bytes mode))) :
    files = if selection.accepts
        (((space.directory.resolve selection.directory).resolve selection.scope).names.getLast?.elim [] Name.text) then
      [(space.directory.resolve selection.directory).resolve selection.scope] else [] := by
  rw [collectUnder] at collected
  generalize (space.directory.resolve selection.directory).resolve selection.scope = shown at collected found ⊢
  rw [Tree.lookup, found, Workspace.naming] at collected
  by_cases zero : shown.toText.contains 0 = true
  · rw [if_pos zero] at collected
    cases collected
  · rw [if_neg zero] at collected
    exact (Except.ok.inj collected).symm

variable {refusals refusalsToo : RunRefusals} {hook : Hook} {options : FileOptions} {token other : Nat → Text}
  {files : List Path} {scope : Path} {entryOf entryToo : Path → Path} {space after last : Workspace}
  {outcomes outcomesToo : List FileOutcome}

/-- The same corpus is collected once more, if any is. A scope that was a link leads to a file all the same. -/
theorem Layout.collect_again {refused : Text → Option Code} {selection : Selection} {filesToo : List Path}
    (wellFormed : space.tree.WellFormed) (wellFormedToo : after.tree.WellFormed)
    (layout : Layout space ((space.directory.resolve selection.directory).resolve selection.scope) files entryOf)
    (foretold : Foretold refusals.calls hook options token files entryOf space after outcomes)
    (tidy : ∀ index, (refusals.calls index).Tidy)
    (collected : collectUnder refused space selection = .ok files)
    (collectedToo : collectUnder refused after selection = .ok filesToo) :
    filesToo = files := by
  have of_alike (alike : space.tree.Alike after.tree) : filesToo = files := by
    rw [collect_alike alike wellFormed wellFormedToo foretold.directory, collected] at collectedToo
    exact (Except.ok.inj collectedToo).symm
  generalize whole : (space.directory.resolve selection.directory).resolve selection.scope = scope at layout
  cases layout with
  | sited sited => exact of_alike (sited.alike foretold tidy)
  | @linked entry place linked =>
    rcases foretold.entry tidy entry with kept | ⟨_, bytes, mode, stands⟩
    · have same := foretold.same_single tidy kept
      exact of_alike fun path => congrArg (Option.map Node.kind) (same.standing path)
    · obtain ⟨old, oldMode, found⟩ := linked.file
      have foundToo := linked.find_replaced (foretold.elsewhere_single tidy) stands after.directory true
      rw [← whole] at found foundToo
      rw [← foretold.directory] at foundToo
      rw [collect_file collected found, collect_file collectedToo foundToo, foretold.directory]

/-- A second run on the same files writes nothing, and it fails on the files on which the first one failed. -/
theorem Foretold.again (layout : Layout space scope files entryOf) (steady : hook.Steady)
    (recurs : refusals.Recurs refusalsToo)
    (foretold : Foretold refusals.calls hook options token files entryOf space after outcomes)
    (foretoldToo : Foretold refusalsToo.calls hook options other files entryToo after last outcomesToo)
    (fresh : FreshTokens token files.length space.tree) (freshToo : FreshTokens other files.length after.tree)
    (level : ∀ index, (other index).length = (token index).length)
    (settles : ∀ file ∈ files, ∀ bytes text, space.readFile file.toText = .ok bytes →
      decodeLosslessly bytes options.encoding file.toText = .ok text →
      (options.plan.revise (options.plan.revise text).text).changed = false) :
    last.Same after ∧ (∀ outcome ∈ outcomesToo, outcome.change? = none) ∧
      outcomesToo.map (fun outcome => outcome.failure?.map FileFailure.subject) =
        outcomes.map fun outcome => outcome.failure?.map FileFailure.subject := by
  have each {index : Nat} (inside : index < files.length) : ∃ outcome outcomeToo,
      outcomes[index]? = some outcome ∧ outcomesToo[index]? = some outcomeToo ∧
      last.tree.get? (entryToo files[index]) = after.tree.get? (entryToo files[index]) ∧
      outcomeToo.change? = none ∧
      outcomeToo.failure?.map FileFailure.subject = outcome.failure?.map FileFailure.subject := by
    have member : files[index] ∈ files := List.getElem_mem inside
    obtain ⟨outcome, written, ended, foretells, leaves⟩ := foretold.ended inside
    obtain ⟨outcomeToo, writtenToo, endedToo, foretellsToo, leavesToo⟩ := foretoldToo.ended inside
    have rereads := layout.rereads foretold recurs.tidy member leaves fun encoded same => (same ▸ foretells).read
    obtain ⟨entry, site⟩ : ∃ entry, Site space.tree files[index] entry := by
      cases layout with
      | sited sited => exact ⟨_, sited.site _ member⟩
      | linked linked => exact ⟨_, (List.mem_singleton.mp member).symm ▸ linked.site.1⟩
    have long := isLong_temporaryPath (fresh.plain index inside) (freshToo.plain index inside) (level index) site
    obtain ⟨rfl, unchanged, failures⟩ :=
      foretells.again steady (recurs.alike index) rereads foretellsToo long (settles files[index] member)
    exact ⟨outcome, outcomeToo, ended, endedToo, leavesToo, unchanged, failures⟩
  refine ⟨⟨foretoldToo.directory, ?_⟩, ?_, ?_⟩
  · intro path
    by_cases own : path ∈ files.map entryToo
    · obtain ⟨file, member, rfl⟩ := List.mem_map.mp own
      obtain ⟨index, inside, rfl⟩ := List.getElem_of_mem member
      obtain ⟨_, _, _, _, kept, _⟩ := each inside
      exact kept
    · exact foretoldToo.elsewhere recurs.tidyToo path own
  · intro outcome member
    obtain ⟨index, inside, rfl⟩ := List.getElem_of_mem member
    obtain ⟨_, outcomeToo, _, endedToo, _, unchanged, _⟩ := each (foretoldToo.count ▸ inside)
    rw [List.getElem?_eq_getElem inside] at endedToo
    exact Option.some.inj endedToo ▸ unchanged
  · apply List.ext_getElem
    · rw [List.length_map, List.length_map, foretold.count, foretoldToo.count]
    · intro index insideToo inside
      rw [List.length_map] at insideToo inside
      obtain ⟨outcome, outcomeToo, ended, endedToo, _, _, failures⟩ := each (foretold.count ▸ inside)
      rw [List.getElem?_eq_getElem inside] at ended
      rw [List.getElem?_eq_getElem insideToo] at endedToo
      rw [List.getElem_map, List.getElem_map, Option.some.inj ended, Option.some.inj endedToo, failures]

end Corpus

namespace Workspace

variable {refusals refusalsToo : RunRefusals} {space after : Workspace} {plan : Plan} {options : RunOptions}
  {means again : RunMeans} {files filesToo : List Path}

section Twice

variable (recurs : refusals.Recurs refusalsToo) (wellFormed : space.tree.WellFormed) (real : options.preview = false)
  (steady : means.hook.Steady) (taken : space.TakesOnUnder refusals.opening options files)
  (fresh : Corpus.FreshTokens means.token files.length space.tree)

include recurs wellFormed real steady taken fresh

/-- A scope that is no link to a file can be revised again. -/
theorem TakesOnUnder.repeated (ran : (space.revisedUnder refusals.calls plan options means files).1.space = after)
    (unlinked : ∀ entry place,
      ¬ space.Linked ((space.directoryOf options.directory).resolve options.scopeText) entry place) :
    after.TakesOnUnder refusalsToo.opening options files := by
  subst ran
  rw [recurs.opening]
  by_cases number : options.concurrencyValue = .nan
  · rwa [revisedUnder_of_nan plan _ number]
  · have wellFormedToo := revised_wellFormed refusals recurs.tidy plan wellFormed steady taken fresh real
    obtain ⟨entryOf, layout, foretold⟩ := revised_laid refusals plan wellFormed steady taken fresh real number
    rw [Path.resolve_toText] at layout
    cases layout with
    | sited sited =>
      exact taken.alike (sited.alike foretold recurs.tidy) wellFormed wellFormedToo foretold.directory
    | linked linked => exact absurd linked (unlinked _ _)

theorem revised_again (ran : (space.revisedUnder refusals.calls plan options means files).1.space = after)
    (settles : ∀ file ∈ files, ∀ bytes text, space.readFile file.toText = .ok bytes →
      decodeLosslessly bytes options.encodingName file.toText = .ok text →
      (plan.revise (plan.revise text).text).changed = false)
    (caller : again.hook = means.hook) (level : ∀ index, (again.token index).length = (means.token index).length)
    (takenToo : after.TakesOnUnder refusalsToo.opening options filesToo)
    (freshToo : Corpus.FreshTokens again.token filesToo.length after.tree) :
    let one := space.revisedUnder refusals.calls plan options means files
    let other := after.revisedUnder refusalsToo.calls plan options again filesToo
    filesToo = files ∧ other.1.space.Same after ∧ (∀ outcome ∈ other.2, outcome.change? = none) ∧
      (other.2.map fun outcome => outcome.failure?.map FileFailure.subject) =
        one.2.map fun outcome => outcome.failure?.map FileFailure.subject := by
  intro one other
  subst ran
  by_cases number : options.concurrencyValue = .nan
  · simp only [one, other]
    rw [revisedUnder_of_nan plan _ number, revisedUnder_of_nan plan _ number]
    rw [revisedUnder_of_nan plan _ number, recurs.opening] at takenToo
    refine ⟨?_, ⟨rfl, fun path => rfl⟩, ?_, rfl⟩
    · exact Except.ok.inj (takenToo.collected.symm.trans taken.collected)
    · intro outcome member
      cases member
  · have wellFormedToo := revised_wellFormed refusals recurs.tidy plan wellFormed steady taken fresh real
    obtain ⟨entryOf, layout, foretold⟩ := revised_laid refusals plan wellFormed steady taken fresh real number
    have same := directoryOf_alike foretold.directory options.directory
    have collected := takenToo.collected
    rw [same, recurs.opening] at collected
    obtain rfl := layout.collect_again wellFormed wellFormedToo foretold recurs.tidy taken.collected collected
    obtain ⟨entryToo, _, foretoldToo⟩ :=
      revised_laid refusalsToo plan wellFormedToo (caller ▸ steady) takenToo freshToo real number
    rw [same, caller] at foretoldToo
    exact ⟨rfl, foretold.again layout steady recurs foretoldToo fresh freshToo level settles⟩

end Twice

theorem failures_tallyOf (outcomes : List FileOutcome) :
    (space.tallyOf options files outcomes).failures.map FileFailure.subject =
      (outcomes.map fun outcome => outcome.failure?.map FileFailure.subject).filterMap id := by
  rw [tallyOf, Tally.ofOutcomes, List.map_filterMap, List.filterMap_map]
  rfl

/-- Where a second revision of the text of each file of a corpus changes nothing, and the system refuses the same calls
again, a second run leaves the workspace as the first one has left it. It reports no change, and failures for the files
for which the first run has reported some. It returns whenever the first run has, unless the scope was a link to a file.
If the first run has taken on no files, both fail in the same way. -/
theorem reviseCorpus_again (recurs : refusals.Recurs refusalsToo) (wellFormed : space.tree.WellFormed)
    (real : options.preview = false) (steady : means.hook.Steady)
    (fresh : ∀ files, space.TakesOnUnder refusals.opening options files →
      Corpus.FreshTokens means.token files.length space.tree)
    (settles : ∀ files, space.TakesOnUnder refusals.opening options files → ∀ file ∈ files, ∀ bytes text,
      space.readFile file.toText = .ok bytes → decodeLosslessly bytes options.encodingName file.toText = .ok text →
      (plan.revise (plan.revise text).text).changed = false)
    (ran : (space.reviseCorpusUnder refusals plan options means).2.1.space = after)
    (caller : again.hook = means.hook) (level : ∀ index, (again.token index).length = (means.token index).length)
    (freshToo : ∀ files, after.TakesOnUnder refusalsToo.opening options files →
      Corpus.FreshTokens again.token files.length after.tree) :
    (after.reviseCorpusUnder refusalsToo plan options again).2.1.space.Same after ∧
    (∀ files, space.TakesOnUnder refusals.opening options files → ∃ tally,
      (space.reviseCorpusUnder refusals plan options means).2.2 = .ok tally ∧
      (∀ tallyToo, (after.reviseCorpusUnder refusalsToo plan options again).2.2 = .ok tallyToo →
        tallyToo.scanned = tally.scanned ∧ tallyToo.changed = 0 ∧
        tallyToo.failures.map FileFailure.subject = tally.failures.map FileFailure.subject) ∧
      ((∀ entry place,
          ¬ space.Linked ((space.directoryOf options.directory).resolve options.scopeText) entry place) →
        ∃ tallyToo, (after.reviseCorpusUnder refusalsToo plan options again).2.2 = .ok tallyToo)) ∧
    ((∀ files, ¬ space.TakesOnUnder refusals.opening options files) → ∃ failure,
      (space.reviseCorpusUnder refusals plan options means).2.2 = .error failure ∧
      (after.reviseCorpusUnder refusalsToo plan options again).2.2 = .error failure) := by
  by_cases some : ∃ files, space.TakesOnUnder refusals.opening options files
  · obtain ⟨files, taken⟩ := some
    have own {others : List Path} (takenToo : space.TakesOnUnder refusals.opening options others) : others = files :=
      Except.ok.inj (takenToo.collected.symm.trans taken.collected)
    rw [reviseCorpusUnder_taken taken] at ran ⊢
    have twice {filesToo : List Path} (takenToo : after.TakesOnUnder refusalsToo.opening options filesToo) :=
      revised_again recurs wellFormed real steady taken (fresh files taken) ran (settles files taken) caller level
        takenToo (freshToo filesToo takenToo)
    have stopped (none : ¬ ∃ filesToo, after.TakesOnUnder refusalsToo.opening options filesToo) :
        ∃ failure, (after.reviseCorpusUnder refusalsToo plan options again).2 = (⟨after, []⟩, .error failure) :=
      reviseCorpusUnder_stopped fun filesToo takenToo => none ⟨filesToo, takenToo⟩
    refine ⟨?_, ?_, fun refused => absurd taken (refused files)⟩
    · by_cases someToo : ∃ filesToo, after.TakesOnUnder refusalsToo.opening options filesToo
      · obtain ⟨filesToo, takenToo⟩ := someToo
        rw [reviseCorpusUnder_taken takenToo]
        exact (twice takenToo).2.1
      · obtain ⟨failure, fails⟩ := stopped someToo
        rw [fails]
        exact ⟨rfl, fun path => rfl⟩
    · intro others takenAlso
      obtain rfl := own takenAlso
      refine ⟨_, rfl, ?_, ?_⟩
      · intro tallyToo returned
        by_cases someToo : ∃ filesToo, after.TakesOnUnder refusalsToo.opening options filesToo
        · obtain ⟨filesToo, takenToo⟩ := someToo
          obtain ⟨rfl, _, unchanged, failures⟩ := twice takenToo
          rw [reviseCorpusUnder_taken takenToo] at returned
          obtain rfl := Except.ok.inj returned
          refine ⟨?_, (Tally.changed_eq_zero_iff _ _ _ _).mpr unchanged, ?_⟩
          · rw [Tally.ofOutcomes, Tally.ofOutcomes]
          · have subjects := congrArg (List.filterMap id) failures
            rwa [← failures_tallyOf, ← failures_tallyOf] at subjects
        · obtain ⟨failure, fails⟩ := stopped someToo
          rw [fails] at returned
          cases returned
      · intro unlinked
        have takenToo := taken.repeated recurs wellFormed real steady (fresh _ taken) ran unlinked
        rw [reviseCorpusUnder_taken takenToo]
        exact ⟨_, rfl⟩
  · obtain ⟨failure, fails⟩ := reviseCorpusUnder_refused plan fun files taken => some ⟨files, taken⟩
    rw [(fails refusals means rfl).2] at ran ⊢
    obtain rfl := ran
    rw [(fails refusalsToo again recurs.opening).2]
    refine ⟨⟨rfl, fun path => rfl⟩, ?_, ?_⟩
    · intro files taken
      exact absurd ⟨files, taken⟩ some
    · intro _
      exact ⟨failure, rfl, rfl⟩

private def rerunSpace (bytes : Bytes) : Workspace := ⟨⟨[(.ofText (units "/a.ts"), .file bytes 0o644)]⟩, .root⟩

private def rerunPlan : Plan := ⟨[], [⟨[⟨units "x", units "v"⟩], by decide, by decide⟩]⟩

private def rerunOptions : RunOptions := ⟨[], [], some (units "a.ts"), none, false, none, none, none, none, none⟩

private def rerunMeans (hook : Hook) (token : String) : RunMeans :=
  ⟨⟨[], [], [], [], [], [], fun _ => []⟩, hook, .turns, fun _ => units token, .zero⟩

private def rerunFiles : List Path := [.ofText (units "/a.ts")]

/-- While a file is revised, another hand writes a second phrase to it. -/
private def meddling : Hook := fun space _ =>
  (⟨space.tree.put (.ofText (units "/a.ts")) (.file [0x78, 0x78] 0o644), space.directory⟩, .ok ())

private theorem eq_rerunSpace {bytes : Bytes} {left : Workspace}
    (entries : left.tree.entries = (rerunSpace bytes).tree.entries) (directory : left.directory = .root) :
    left = rerunSpace bytes := by
  obtain ⟨⟨own⟩, base⟩ := left
  obtain rfl : base = .root := directory
  obtain rfl : own = (rerunSpace bytes).tree.entries := entries
  rfl

private theorem rerunSpace_wellFormed : (rerunSpace [0x78]).tree.WellFormed := ⟨by decide +kernel, by decide +kernel⟩

private theorem rerunSpace_takesOn : (rerunSpace [0x78]).TakesOn rerunOptions rerunFiles :=
  ⟨by decide +kernel, by decide +kernel⟩

private theorem rerunSpace_fresh : Corpus.FreshTokens (fun _ => units "0a-1f") 1 (rerunSpace [0x78]).tree :=
  ⟨by decide +kernel, by decide +kernel, by decide +kernel⟩

private theorem rerunSpace_settles : ∀ file ∈ rerunFiles, ∀ bytes text,
    (rerunSpace [0x78]).readFile file.toText = .ok bytes →
    decodeLosslessly bytes rerunOptions.encodingName file.toText = .ok text →
    (rerunPlan.revise (rerunPlan.revise text).text).changed = false := by
  intro file member bytes text read decoded
  obtain rfl := List.mem_singleton.mp member
  have held : (rerunSpace [0x78]).readFile (Path.ofText (units "/a.ts")).toText = .ok [0x78] := by decide +kernel
  obtain rfl := Except.ok.inj (held.symm.trans read)
  have stands : decodeLosslessly [0x78] rerunOptions.encodingName (Path.ofText (units "/a.ts")).toText =
      .ok (units "x") := by decide +kernel
  obtain rfl := Except.ok.inj (stands.symm.trans decoded)
  decide +kernel

/-- The first run rewrites the file, and the second one finds nothing to do. -/
theorem reviseCorpus_again_settled : ∃ tally tallyToo,
    ((rerunSpace [0x78]).reviseCorpus rerunPlan rerunOptions (rerunMeans .silent "0a-1f")).2.2 = .ok tally ∧
      tally.changed = 1 ∧
      ((rerunSpace [0x78]).reviseCorpus rerunPlan rerunOptions (rerunMeans .silent "0a-1f")).2.1.space = rerunSpace [0x76] ∧
      ((rerunSpace [0x76]).reviseCorpus rerunPlan rerunOptions (rerunMeans .silent "0b-2e")).2.2 = .ok tallyToo ∧
      tallyToo.changed = 0 ∧
      ((rerunSpace [0x76]).reviseCorpus rerunPlan rerunOptions (rerunMeans .silent "0b-2e")).2.1.space.Same
        (rerunSpace [0x76]) := by
  have steady : (rerunMeans .silent "0a-1f").hook.Steady := ⟨fun _ _ => rfl, fun _ _ _ => rfl⟩
  have only {files : List Path} (other : (rerunSpace [0x78]).TakesOn rerunOptions files) : files = rerunFiles :=
    Except.ok.inj (other.collected.symm.trans rerunSpace_takesOn.collected)
  have fresh : ∀ files, (rerunSpace [0x78]).TakesOnUnder RunRefusals.none.opening rerunOptions files →
      Corpus.FreshTokens (rerunMeans .silent "0a-1f").token files.length (rerunSpace [0x78]).tree := by
    intro files other
    obtain rfl := only (takesOnUnder_none.mp other)
    exact rerunSpace_fresh
  have settles : ∀ files, (rerunSpace [0x78]).TakesOnUnder RunRefusals.none.opening rerunOptions files →
      ∀ file ∈ files, ∀ bytes text, (rerunSpace [0x78]).readFile file.toText = .ok bytes →
      decodeLosslessly bytes rerunOptions.encodingName file.toText = .ok text →
      (rerunPlan.revise (rerunPlan.revise text).text).changed = false := by
    intro files other
    obtain rfl := only (takesOnUnder_none.mp other)
    exact rerunSpace_settles
  have ran : ((rerunSpace [0x78]).reviseCorpus rerunPlan rerunOptions (rerunMeans .silent "0a-1f")).2.1.space =
      rerunSpace [0x76] := eq_rerunSpace (by decide +kernel) (by decide +kernel)
  have takenToo : (rerunSpace [0x76]).TakesOn rerunOptions rerunFiles := ⟨by decide +kernel, by decide +kernel⟩
  have freshToo : ∀ files, (rerunSpace [0x76]).TakesOnUnder RunRefusals.none.opening rerunOptions files →
      Corpus.FreshTokens (rerunMeans .silent "0b-2e").token files.length (rerunSpace [0x76]).tree := by
    intro files other
    obtain rfl := Except.ok.inj (takenToo.collected.symm.trans other.collected)
    exact ⟨by decide +kernel, by decide +kernel, by decide +kernel⟩
  have unlinked : ∀ entry place, ¬ (rerunSpace [0x78]).Linked
      (((rerunSpace [0x78]).directoryOf rerunOptions.directory).resolve rerunOptions.scopeText) entry place := by
    rintro entry place ⟨⟨target, found⟩, _⟩
    have looked : (rerunSpace [0x78]).tree.lookup (rerunSpace [0x78]).directory false
        (((rerunSpace [0x78]).directoryOf rerunOptions.directory).resolve rerunOptions.scopeText).toText =
          .ok (.ofText (units "/a.ts"), .file [0x78] 0o644) := by decide +kernel
    cases found.symm.trans (Corpus.find_of_lookup looked)
  have level : (units "0b-2e").length = (units "0a-1f").length := by decide
  obtain ⟨same, returns, _⟩ := @reviseCorpus_again .none .none (rerunSpace [0x78]) (rerunSpace [0x76]) rerunPlan
    rerunOptions (rerunMeans .silent "0a-1f") (rerunMeans .silent "0b-2e") RunRefusals.recurs_none
    rerunSpace_wellFormed rfl steady fresh settles ran rfl (fun _ => level) freshToo
  rw [← reviseCorpus, ← reviseCorpus] at returns
  obtain ⟨tally, returned, reports, more⟩ := returns rerunFiles (takesOnUnder_none.mpr rerunSpace_takesOn)
  obtain ⟨tallyToo, returnedToo⟩ := more unlinked
  have one : ((rerunSpace [0x78]).reviseCorpus rerunPlan rerunOptions (rerunMeans .silent "0a-1f")).2.2.map Tally.changed =
      .ok 1 := by decide +kernel
  rw [returned] at one
  exact ⟨tally, tallyToo, returned, Except.ok.inj one, ran, returnedToo, (reports tallyToo returnedToo).2.1, same⟩

/-- The first run does not overwrite what has been written in the meantime, and the second run rewrites it. -/
theorem reviseCorpus_again_meddled :
    (rerunSpace [0x78]).tree.WellFormed ∧ (rerunSpace [0x78]).TakesOn rerunOptions rerunFiles ∧
      Corpus.FreshTokens (rerunMeans meddling "0a-1f").token 1 (rerunSpace [0x78]).tree ∧
      (∀ file ∈ rerunFiles, ∀ bytes text, (rerunSpace [0x78]).readFile file.toText = .ok bytes →
        decodeLosslessly bytes rerunOptions.encodingName file.toText = .ok text →
        (rerunPlan.revise (rerunPlan.revise text).text).changed = false) ∧
      ((rerunSpace [0x78]).reviseCorpus rerunPlan rerunOptions (rerunMeans meddling "0a-1f")).2.2.map
        (fun tally => (tally.changed, tally.failures.map FileFailure.subject)) = .ok (0, [(units "a.ts", .write)]) ∧
      ((rerunSpace [0x78]).reviseCorpus rerunPlan rerunOptions (rerunMeans meddling "0a-1f")).2.1.space =
        rerunSpace [0x78, 0x78] ∧
      Corpus.FreshTokens (rerunMeans meddling "0b-2e").token 1 (rerunSpace [0x78, 0x78]).tree ∧
      ((rerunSpace [0x78, 0x78]).reviseCorpus rerunPlan rerunOptions (rerunMeans meddling "0b-2e")).2.2.map
        Tally.changed = .ok 1 ∧
      ((rerunSpace [0x78, 0x78]).reviseCorpus rerunPlan rerunOptions (rerunMeans meddling "0b-2e")).2.1.space =
        rerunSpace [0x76, 0x76] := by
  have freshToo : Corpus.FreshTokens (rerunMeans meddling "0b-2e").token 1 (rerunSpace [0x78, 0x78]).tree :=
    ⟨by decide +kernel, by decide +kernel, by decide +kernel⟩
  exact ⟨rerunSpace_wellFormed, rerunSpace_takesOn, rerunSpace_fresh, rerunSpace_settles, by decide +kernel,
    eq_rerunSpace (by decide +kernel) (by decide +kernel), freshToo, by decide +kernel,
    eq_rerunSpace (by decide +kernel) (by decide +kernel)⟩

end Workspace

end Emend
