import Emend.Proofs.PathSegments
import Emend.Proofs.RunReport

/-! A name that is shown for a file leads back to the file. Read against the directory in which someone works, it means
the path of which it was made, and the entries of a report stand under names that no two files of the run have. -/

namespace Emend

open Text

namespace Path

variable {directory file : Path}

/-- What is shown of a file is read as the file, except for the directory itself. -/
theorem resolve_displayPath (apart : file ≠ directory) :
    directory.resolve (displayPath directory.toText file.toText) = file := by
  by_cases inside : directory.names <+: file.names
  · obtain ⟨rest, names⟩ := inside
    cases rest with
    | nil =>
      rw [List.append_nil] at names
      exact absurd (congrArg mk names.symm) apart
    | cons name rest =>
      have flat : ∀ piece ∈ (name :: rest).map Name.text, slash ∉ piece := by
        intro piece member
        obtain ⟨other, _, rfl⟩ := List.mem_map.mp member
        exact other.slash_not_mem
      have relative : isAbsolute (displayPath directory.toText file.toText) = false :=
        isAbsolute_displayPath ⟨name :: rest, names⟩
      rw [resolve, relative, displayPath_below names.symm]
      simp only [Bool.false_eq_true, if_false]
      rw [List.map_cons, split_join flat, ← List.map_cons, foldl_step_names, names]
  · rw [displayPath_outside inside]
    exact resolve_toText directory file

end Path

def Tally.names (tally : Tally) : List Text :=
  tally.files.map FileReport.file ++ tally.failures.map FileFailure.file

theorem Tally.Accounts.mem {tally : Tally} {names : List Text} (accounts : tally.Accounts names) {name : Text}
    (entry : name ∈ tally.names) : name ∈ names := by
  rcases List.mem_append.mp entry with matched | failed
  · exact accounts.files.subset matched
  · exact accounts.failures.subset failed

namespace Workspace

variable {space : Workspace} {options : RunOptions} {files : List Path}

theorem exists_accounts {refusals : RunRefusals} {plan : Plan} {means : RunMeans} {tally : Tally}
    (wellFormed : space.tree.WellFormed)
    (returned : (space.reviseCorpusUnder refusals plan options means).2.2 = .ok tally) :
    ∃ files, space.TakesOnUnder refusals.opening options files ∧ (files.map (space.shownAs options)).Nodup ∧
      tally.Accounts (files.map (space.shownAs options)) := by
  by_cases takes : ∃ files, space.TakesOnUnder refusals.opening options files
  · obtain ⟨files, taken⟩ := takes
    obtain ⟨entryOf, layout⟩ := Corpus.collect_layout wellFormed taken.collected
    have distinct : (files.map (space.shownAs options)).Nodup :=
      layout.shown_nodup (space.directoryOf options.directory)
    refine ⟨files, taken, distinct, ?_⟩
    rw [reviseCorpusUnder_taken taken] at returned
    obtain rfl := Except.ok.inj returned
    by_cases number : options.concurrencyValue = .nan
    · rw [revisedUnder_of_nan plan _ number]
      exact ⟨List.nil_sublist _, List.nil_sublist _, List.nodup_nil, (List.length_map _).symm, rfl, rfl, rfl, rfl⟩
    · have settles : space.Settles plan options means files
          (space.revisedUnder refusals.calls plan options means files).2 :=
        revisedUnder_settles refusals.calls plan means files number
      exact Tally.accounts _ _ settles.shows distinct (List.length_map _).symm
  · obtain ⟨failure, stopped⟩ :
        ∃ failure, (space.reviseCorpusUnder refusals plan options means).2 = (⟨space, []⟩, .error failure) :=
      reviseCorpusUnder_stopped (not_exists.mp takes)
    rw [stopped] at returned
    cases returned

/-- A name that is shown identifies its file: read against the directory it gives the path back, if the path is not
that of the directory itself. So the files of a run have names of their own, and every entry of the report stands under
the name of one of them, no two under the same. -/
theorem displayPath_identifies :
    (∀ directory file : Text, Path.Normal directory → Path.Normal file → file ≠ directory →
      ((Path.ofText directory).resolve (displayPath directory file)).toText = file) ∧
    ∀ (refusals : RunRefusals) (space : Workspace) (plan : Plan) (options : RunOptions) (means : RunMeans)
      (tally : Tally), space.tree.WellFormed → (space.reviseCorpusUnder refusals plan options means).2.2 = .ok tally →
      ∃ files, space.TakesOnUnder refusals.opening options files ∧
        (∀ file ∈ files, ∀ other ∈ files, space.shownAs options file = space.shownAs options other → file = other) ∧
        (∀ name ∈ tally.names, ∃ file ∈ files, name = space.shownAs options file) ∧ tally.names.Nodup := by
  constructor
  · intro directory file normal normalToo apart
    have own : (Path.ofText directory).toText = directory := normal.toText_ofText
    have ownToo : (Path.ofText file).toText = file := normalToo.toText_ofText
    have paths : Path.ofText file ≠ Path.ofText directory := by
      intro same
      apply apart
      rw [← own, ← ownToo, same]
    have back := Path.resolve_displayPath paths
    rw [own, ownToo] at back
    rw [back, ownToo]
  · intro refusals space plan options means tally wellFormed returned
    obtain ⟨files, taken, distinct, accounts⟩ := exists_accounts wellFormed returned
    refine ⟨files, taken, ?_, ?_, accounts.once⟩
    · intro file member other memberToo same
      exact List.inj_on_of_nodup_map distinct member memberToo same
    · intro name entry
      obtain ⟨file, member, same⟩ := List.mem_map.mp (accounts.mem entry)
      exact ⟨file, member, same.symm⟩

/-- A repository with a file, and below it a directory with one whose name begins with two dots. -/
private def upperSpace : Workspace :=
  ⟨⟨[(.ofText (units "/r"), .directory), (.ofText (units "/r/.git"), .directory),
    (.ofText (units "/r/a.ts"), .file [0x78] 0o644), (.ofText (units "/r/w"), .directory),
    (.ofText (units "/r/w/..b.ts"), .file [0x78] 0o644)]⟩, .root⟩

private def upperPlan : Plan := ⟨[], [⟨[⟨units "x", units "yx"⟩], by decide, by decide⟩]⟩

private def upperOptions : RunOptions :=
  ⟨[], [], some (units ".."), some (units "/r/w"), true, none, none, none, none, none⟩

private def upperSelection : Corpus.Selection := ⟨units "/r/w", units "..", none, none⟩

private def upperMeans : RunMeans :=
  ⟨⟨[], [], [], [], [], [], fun _ => []⟩, .silent, .turns, fun _ => units "0a-1f", .zero⟩

private def upperFiles : List Path := [.ofText (units "/r/a.ts"), .ofText (units "/r/w/..b.ts")]

private theorem upperSpace_takesOn : upperSpace.TakesOn upperOptions upperFiles := by
  have above : upperSpace.tree.list (.ofText (units "/r")) =
      [(⟨units ".git", rfl⟩, .directory), (⟨units "a.ts", rfl⟩, .file [0x78] 0o644), (⟨units "w", rfl⟩, .directory)] :=
    List.mergeSort_of_pairwise (by decide +kernel)
  have below : upperSpace.tree.list ((Path.ofText (units "/r")).child ⟨units "w", rfl⟩) =
      [(⟨units "..b.ts", rfl⟩, .file [0x78] 0o644)] :=
    List.mergeSort_of_pairwise (by decide +kernel)
  have named : naming "stat" (units "/r") (upperSpace.tree.lookup upperSpace.directory true (units "/r")) =
      .ok (.ofText (units "/r"), .directory) := by decide +kernel
  have scope : (upperSpace.directory.resolve upperSelection.directory).resolve upperSelection.scope =
      .ofText (units "/r") := by decide +kernel
  have text : (Path.ofText (units "/r")).toText = units "/r" := by decide +kernel
  have excluded : upperSelection.skipped.contains (units ".git") = true := by decide +kernel
  have entered : upperSelection.skipped.contains (units "w") = false := by decide +kernel
  have collected : Corpus.collect upperSpace upperSelection = .ok upperFiles := by
    rw [Corpus.collect, Corpus.collectUnder, show Corpus.depth upperSpace.tree = 3 by decide +kernel]
    simp only [scope, text, named, Corpus.unopened?, Corpus.shut?, Corpus.walk, above, below, List.flatMap_cons,
      List.flatMap_nil, List.findSome?, excluded, entered]
    decide +kernel
  exact ⟨by decide +kernel, collected⟩

/-- One file is shown by its whole path and the other by its name, which leads no way up. -/
theorem displayPath_identifies_outside :
    ((Path.ofText (units "/r/w")).resolve (displayPath (units "/r/w") (units "/r/w/..b.ts"))).toText =
        units "/r/w/..b.ts" ∧
      ∃ tally, (upperSpace.reviseCorpus upperPlan upperOptions upperMeans).2.2 = .ok tally ∧
        tally.names = [units "/r/a.ts", units "..b.ts"] ∧ tally.names.Nodup := by
  have normal : Path.Normal (units "/r/w") := ⟨⟨by decide, by decide⟩, by decide⟩
  have normalToo : Path.Normal (units "/r/w/..b.ts") := ⟨⟨by decide, by decide⟩, by decide⟩
  have wellFormed : upperSpace.tree.WellFormed := ⟨by decide +kernel, by decide +kernel⟩
  have run : (upperSpace.reviseCorpus upperPlan upperOptions upperMeans).2 = (_, .ok _) :=
    reviseCorpus_taken upperSpace_takesOn
  have returned := congrArg Prod.snd run
  refine ⟨displayPath_identifies.1 _ _ normal normalToo (by decide), _, returned, ?_, ?_⟩
  · decide +kernel
  · obtain ⟨_, _, _, _, distinct⟩ :=
      displayPath_identifies.2 .none upperSpace upperPlan upperOptions upperMeans _ wellFormed returned
    exact distinct

end Workspace

end Emend
