import Emend.Proofs.CorpusLayout

/-! The permission bits of files that are rewritten. In place of a file stands its sibling, for which the bits of the
file were asked when it was created; the mask has taken from them what lets the group and others write. -/

namespace Emend

open Text

namespace Workspace

theorem and_eq_mod_and (bits : Nat) {part : Nat} (within : 0o777 &&& part = part) :
    bits &&& part = bits % 0o1000 &&& part := by
  rw [← Nat.and_two_pow_sub_one_eq_mod bits 9, Nat.and_assoc]
  exact congrArg (bits &&& ·) within.symm

private theorem masked_low {low : Nat} (few : low < 0o1000) :
    low - (low &&& mask) = low &&& 0o755 ∧ (low &&& 0o755 = low &&& 0o777 ↔ low &&& mask = 0) := by
  have every : ∀ low < 0o1000,
      low - (low &&& mask) = low &&& 0o755 ∧ (low &&& 0o755 = low &&& 0o777 ↔ low &&& mask = 0) := by
    decide +kernel
  exact every low few

theorem maskedMode_file (bits : Nat) : maskedMode (0o100000 + bits) = bits &&& 0o755 := by
  have low : (0o100000 + bits) % 0o1000 = bits % 0o1000 := by omega
  have masked : 0o100000 + bits &&& mask = bits % 0o1000 &&& mask := by
    rw [and_eq_mod_and _ (by decide), low]
  rw [maskedMode, masked, low, (masked_low (Nat.mod_lt _ (by decide))).1, ← and_eq_mod_and bits (by decide)]

theorem masked_eq_iff (bits : Nat) : bits &&& 0o755 = bits &&& 0o777 ↔ bits &&& mask = 0 := by
  have kept := (masked_low (Nat.mod_lt bits (by decide : 0 < 0o1000))).2
  rwa [← and_eq_mod_and bits (by decide), ← and_eq_mod_and bits (by decide), ← and_eq_mod_and bits (by decide)] at kept

/-- What becomes of the permission bits of a file that is rewritten: what the entry of its path holds then is a file
with its bits, less those of the mask. So it has all its bits if none of them is in the mask, and only then. -/
def Remasked (before after : Workspace) (path : Text) : Prop :=
  ∃ bits kept found bytes, before.mode path = .ok (0o100000 + bits) ∧
    before.tree.find before.directory false path = .ok found ∧
    after.tree.get? found.place = some (.file bytes kept) ∧
    kept &&& 0o777 = bits &&& 0o755 ∧ (kept &&& 0o777 = bits &&& 0o777 ↔ bits &&& mask = 0)

theorem Remasked.of_masked {before after : Workspace} {path : Text} {bits : Nat} {found : Tree.Found} {bytes : Bytes}
    (stat : before.mode path = .ok (0o100000 + bits)) (reach : before.tree.find before.directory false path = .ok found)
    (standing : after.tree.get? found.place = some (.file bytes (maskedMode (0o100000 + bits)))) :
    Remasked before after path := by
  rw [maskedMode_file] at standing
  have nine : (bits &&& 0o755) &&& 0o777 = bits &&& 0o755 := Nat.and_assoc bits 0o755 0o777
  exact ⟨bits, _, found, bytes, stat, reach, standing, nine, nine.symm ▸ masked_eq_iff bits⟩

section Runs

variable {space : Workspace} {plan : Plan} {options : RunOptions} {means : RunMeans} {files : List Path}

theorem Remasked.of_made {before after : Workspace} {revising : Corpus.FileOptions} {change : Change} {place : Path}
    (site : Site before.tree change.file place) {old : Bytes} {mode : Nat}
    (there : before.tree.get? place = some (.file old mode)) (made : change.Made revising before after) :
    Remasked before after change.file.toText := by
  have stat := mode_of_lookup (readFile_found made.reads).1 made.found
  have reach := Corpus.find_of_lookup made.found
  have plain : ∀ target, before.tree.get? place ≠ some (.link target) := fun target link => by
    cases there.symm.trans link
  have goes := site.find (.refl before.tree) before.directory true fun _ => plain
  have came := site.find (.refl before.tree) before.directory false fun follow => by cases follow
  have ends : before.tree.endAt place = .node place (.file old mode) := by rw [Tree.endAt, there]
  rw [reach, ends] at goes
  split at goes
  · cases goes
  next short =>
    obtain ⟨rfl, _⟩ := Tree.Found.node.inj (Except.ok.inj goes)
    rw [if_neg short, ends] at came
    exact .of_masked stat came made.standing

theorem contains_of_mode {path : Text} {mode : Nat} (stat : space.mode path = .ok mode) : path.contains 0 = false := by
  rw [Workspace.mode] at stat
  cases looked : space.stat path with
  | error error =>
    rw [looked] at stat
    cases stat
  | ok node => exact contains_of_naming looked

/-- A link of which a change is reported has been replaced, by a file with the bits of that to which it led. -/
theorem Remasked.of_foretold {refusals : Nat → Refusals} {hook : Hook} {revising : Corpus.FileOptions}
    {token : Nat → Text} {scope entry place : Path} {after : Workspace} {outcomes : List FileOutcome}
    (linked : space.Linked scope entry place)
    (foretold : Corpus.Foretold refusals hook revising token [scope] (fun _ => entry) space after outcomes)
    {report : FileReport} (changed : report ∈ outcomes.filterMap FileOutcome.change?) :
    report.file = displayPath revising.directory scope.toText ∧ Remasked space after scope.toText := by
  obtain ⟨outcome, among, reported⟩ := List.mem_filterMap.mp changed
  obtain ⟨only, rfl⟩ := List.length_eq_one_iff.mp foretold.count
  obtain rfl := List.mem_singleton.mp among
  obtain ⟨written, foretells, leaves⟩ := foretold.each 0 scope outcome rfl rfl
  obtain ⟨shown, encoded, rfl⟩ := foretells.of_change reported
  obtain ⟨mode, stat, standing⟩ := leaves
  obtain ⟨target, link⟩ := linked.link
  obtain ⟨bytes, bits, reach⟩ := linked.file
  have looked : space.tree.lookup space.directory true scope.toText = .ok (place, .file bytes bits) := by
    rw [Tree.lookup, reach]
    rfl
  obtain rfl := Except.ok.inj (stat.symm.trans (mode_of_lookup (contains_of_mode stat) looked))
  exact ⟨shown, .of_masked stat link standing⟩

/-- Each file of which a change is reported has lost the bits of the mask, and no others. -/
theorem revisedUnder_remasked {refusals : RunRefusals} (wellFormed : space.tree.WellFormed)
    (real : options.preview = false) (quiet : means.hook.Quiet)
    (taken : space.TakesOnUnder refusals.opening options files)
    (fresh : Corpus.FreshTokens means.token files.length space.tree) {report : FileReport}
    (changed : report ∈ (space.revisedUnder refusals.calls plan options means files).2.filterMap FileOutcome.change?) :
    ∃ file ∈ files, report.file = displayPath (space.directoryOf options.directory).toText file.toText ∧
      Remasked space (space.revisedUnder refusals.calls plan options means files).1.space file.toText := by
  have plain : (options.fileOptions plan (space.directoryOf options.directory)).preview = false := real
  obtain ⟨entryOf, layout⟩ := Corpus.collect_layout wellFormed taken.collected
  rw [revisedUnder] at changed ⊢
  generalize Pool.limitOf options.concurrencyValue files.length = limit at changed ⊢
  cases layout with
  | sited sited =>
    obtain ⟨changes, leftovers, reports, _, rewrites⟩ :=
      Corpus.reviseAllUnder_rewrites sited fresh plain quiet means.schedule limit
    rw [← reports] at changed
    obtain ⟨change, among, rfl⟩ := List.mem_map.mp changed
    have made := rewrites.made change among
    have member := rewrites.listed.subset (List.mem_map_of_mem among)
    obtain ⟨old, mode, there⟩ := sited.there _ member
    exact ⟨_, member, made.shown, .of_made (sited.site _ member) there made⟩
  | linked linked =>
    cases limit with
    | zero =>
      rw [Corpus.reviseAllUnder, Corpus.runAll_none _ _ _ (.inl rfl)] at changed
      cases changed
    | succ more =>
      have foretold := Corpus.linked_foretold refusals.calls linked fresh quiet plain means.schedule
        (Nat.le_add_left 1 more)
      obtain ⟨shown, remasked⟩ := Remasked.of_foretold linked foretold changed
      exact ⟨_, List.mem_singleton_self _, shown, remasked⟩

/-- Every run that returns has taken on some files. What each file that is reported as changed has lost of its
permission bits is what the mask takes away, whatever else the system refuses. -/
theorem reviseCorpus_remasks (refusals : RunRefusals) (wellFormed : space.tree.WellFormed)
    (real : options.preview = false) (quiet : means.hook.Quiet)
    (fresh : ∀ files, space.TakesOnUnder refusals.opening options files →
      Corpus.FreshTokens means.token files.length space.tree) :
    (∀ tally, (space.reviseCorpusUnder refusals plan options means).2.2 = .ok tally →
      ∃ files, space.TakesOnUnder refusals.opening options files) ∧
    ∀ files, space.TakesOnUnder refusals.opening options files → ∃ tally,
      (space.reviseCorpusUnder refusals plan options means).2.2 = .ok tally ∧
      ∀ report ∈ tally.files, report.changed = true →
        ∃ file ∈ files, report.file = displayPath (space.directoryOf options.directory).toText file.toText ∧
          Remasked space (space.reviseCorpusUnder refusals plan options means).2.1.space file.toText := by
  constructor
  · intro tally returned
    by_contra refused
    obtain ⟨failure, stopped⟩ : ∃ failure,
        (space.reviseCorpusUnder refusals plan options means).2 = (⟨space, []⟩, .error failure) :=
      reviseCorpusUnder_stopped (not_exists.mp refused)
    rw [stopped] at returned
    cases returned
  · intro files taken
    rw [reviseCorpusUnder_taken taken]
    refine ⟨_, rfl, fun report among changed => ?_⟩
    have listed := List.mem_filter.mpr ⟨among, changed⟩
    rw [Tally.changed_eq] at listed
    exact revisedUnder_remasked wellFormed real quiet taken (fresh files taken) listed

end Runs

private def permittedSpace (bits : Nat) : Workspace :=
  ⟨⟨[(.ofText (units "/d"), .directory), (.ofText (units "/d/a.ts"), .file [0x78] bits)]⟩, .root⟩

private def permittedPlan : Plan := ⟨[], [⟨[⟨units "x", units "w"⟩], by decide, by decide⟩]⟩

private def permittedOptions : RunOptions := ⟨[], [], some (units "d"), none, false, none, none, none, none, none⟩

private def permittedMeans : RunMeans :=
  ⟨⟨[], [], [], [], [], [], fun _ => []⟩, .silent, .turns, fun _ => units "0a-1f", .zero⟩

/-- A program that all may run, and that only its owner may write, stays one. -/
theorem reviseCorpus_remasks_program : ∃ tally,
    ((permittedSpace 0o755).reviseCorpus permittedPlan permittedOptions permittedMeans).2.2 = .ok tally ∧
      tally.files.map FileReport.changed = [true] ∧
      ∀ report ∈ tally.files, report.changed = true → ∃ file ∈ [Path.ofText (units "/d/a.ts")],
        report.file = displayPath (units "/") file.toText ∧
          Remasked (permittedSpace 0o755)
            ((permittedSpace 0o755).reviseCorpus permittedPlan permittedOptions permittedMeans).2.1.space file.toText := by
  have taken : (permittedSpace 0o755).TakesOn permittedOptions [.ofText (units "/d/a.ts")] :=
    ⟨by decide +kernel, by decide +kernel⟩
  have wellFormed : (permittedSpace 0o755).tree.WellFormed := ⟨by decide +kernel, by decide +kernel⟩
  have fresh : ∀ files, (permittedSpace 0o755).TakesOnUnder RunRefusals.none.opening permittedOptions files →
      Corpus.FreshTokens permittedMeans.token files.length (permittedSpace 0o755).tree := by
    intro files other
    obtain rfl := Except.ok.inj (taken.collected.symm.trans (takesOnUnder_none.mp other).collected)
    exact ⟨by decide +kernel, by decide +kernel, by decide +kernel⟩
  obtain ⟨_, every⟩ := @reviseCorpus_remasks (permittedSpace 0o755) permittedPlan permittedOptions permittedMeans .none
    wellFormed rfl (fun _ _ => rfl) fresh
  rw [← reviseCorpus] at every
  obtain ⟨tally, returned, remasked⟩ := every _ (takesOnUnder_none.mpr taken)
  have one : ((permittedSpace 0o755).reviseCorpus permittedPlan permittedOptions permittedMeans).2.2.map
      (·.files.map FileReport.changed) = .ok [true] := by decide +kernel
  rw [returned] at one
  exact ⟨tally, returned, Except.ok.inj one, remasked⟩

/-- A file that all may write is one that only its owner may write afterwards. -/
theorem reviseCorpus_tightens :
    (permittedSpace 0o666).tree.WellFormed ∧ permittedMeans.hook.Quiet ∧
      (permittedSpace 0o666).TakesOn permittedOptions [.ofText (units "/d/a.ts")] ∧
      Corpus.FreshTokens permittedMeans.token 1 (permittedSpace 0o666).tree ∧
      ¬ ∀ path bytes bits, (permittedSpace 0o666).tree.get? path = some (.file bytes bits) →
        ∃ rewritten, ((permittedSpace 0o666).reviseCorpus permittedPlan permittedOptions permittedMeans).2.1.space.tree.get?
          path = some (.file rewritten bits) := by
  refine ⟨⟨by decide +kernel, by decide +kernel⟩, fun _ _ => rfl, ⟨by decide +kernel, by decide +kernel⟩,
    ⟨by decide +kernel, by decide +kernel, by decide +kernel⟩, fun kept => ?_⟩
  obtain ⟨rewritten, standing⟩ := kept (.ofText (units "/d/a.ts")) [0x78] 0o666 (by decide +kernel)
  have tightened : ((permittedSpace 0o666).reviseCorpus permittedPlan permittedOptions permittedMeans).2.1.space.tree.get?
      (.ofText (units "/d/a.ts")) = some (.file [0x77] 0o644) := by decide +kernel
  rw [tightened] at standing
  cases standing

end Workspace

end Emend
