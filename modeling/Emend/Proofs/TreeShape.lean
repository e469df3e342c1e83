import Emend.Proofs.CorpusLayout

/-! What a run leaves of the shape of a tree: at every path there is the same kind of thing as before, and a file that
has changed reads as its revision by whatever path it was read before. A scope that is a link to a file is the one
exception. It is read through the link, but it is the link that is replaced. -/

namespace Emend

open Text FileError

/-- What kind of thing stands at a path. Links are of one kind when they lead the same way. -/
inductive Node.Kind where
  | file
  | directory
  | link (target : Text)
  | pipe
  deriving DecidableEq

def Node.kind : Node → Node.Kind
  | .file _ _ => .file
  | .directory => .directory
  | .link target => .link target
  | .pipe => .pipe

/-- The same kind of thing stands at every path of two trees. -/
def Tree.Alike (before after : Tree) : Prop :=
  ∀ path, (after.get? path).map Node.kind = (before.get? path).map Node.kind

def Tree.Opens (tree : Tree) (base : Path) (t : Text) (place : Path) : Prop :=
  t.contains 0 = false ∧ ∃ bytes mode, tree.find base true t = .ok (.node place (.file bytes mode))

/-- While directories and links stay, what leads to a file still does when another file is in its place. -/
theorem Tree.Opens.reads {before after : Tree} (keeps : before.Keeps after) {base place : Path} {t : Text}
    (opens : before.Opens base t place) {bytes : Bytes} {mode : Nat}
    (standing : after.get? place = some (.file bytes mode)) : Workspace.readFile ⟨after, base⟩ t = .ok bytes := by
  obtain ⟨plain, old, own, reach⟩ := opens
  have unlinked : true = true → ∀ target, after.get? place ≠ some (.link target) := by
    intro _ target link
    cases standing.symm.trans link
  have found := find_endAt keeps reach (fun other same => by cases same) unlinked
  have ends : after.endAt place = .node place (.file bytes mode) := by rw [endAt, standing]
  rw [Workspace.readFile, lookup, found]
  simp only [Found.place, ends, Workspace.naming, plain]
  rfl

namespace Corpus

section

variable {refusals : Nat → Refusals} {options : FileOptions} {token : Nat → Text} {files : List Path}
  {before after : Workspace} {changes : List Change}
  (rewrites : Rewrites refusals options token files before after changes [])

include rewrites

theorem Rewrites.stood {change : Change} (member : change ∈ changes) :
    before.tree.get? change.place = some (.file change.bytes change.mode) ∧
      ∃ mode, after.tree.get? change.place = some (.file change.encoded mode) := by
  have made := rewrites.made change member
  have reach := find_of_lookup made.found
  have ends := (Tree.find_found reach fun other same => by cases same).1
  exact ⟨Tree.get?_of_endAt_node _ ends.symm, _, made.standing⟩

theorem Rewrites.alike : before.tree.Alike after.tree := by
  intro path
  by_cases changed : path ∈ changes.map Change.place
  · obtain ⟨change, member, rfl⟩ := List.mem_map.mp changed
    obtain ⟨was, mode, stands⟩ := rewrites.stood member
    rw [was, stands]
    rfl
  · rw [rewrites.elsewhere path changed List.not_mem_nil]

theorem Rewrites.keeps : before.tree.Keeps after.tree := by
  intro path node there other
  have unchanged : path ∉ changes.map Change.place := by
    intro changed
    obtain ⟨change, member, rfl⟩ := List.mem_map.mp changed
    rw [(rewrites.stood member).1] at there
    exact other _ _ (Option.some.inj there).symm
  rw [rewrites.elsewhere path unchanged List.not_mem_nil, there]

/-- By whatever path a file that has changed was read before, its revision is read now. -/
theorem Rewrites.reads {change : Change} (member : change ∈ changes) {base : Path} {t : Text}
    (opens : before.tree.Opens base t change.place) : Workspace.readFile ⟨after.tree, base⟩ t = .ok change.encoded := by
  obtain ⟨_, mode, stands⟩ := rewrites.stood member
  exact opens.reads rewrites.keeps stands

end

/-- What a run leaves of a scope that is a link to a file. Nothing is changed but the entry of the link, and that only
when a change is reported; then the revision stands there as a file of its own. -/
structure Relinks (options : FileOptions) (scope entry : Path) (before after : Workspace) (reports : List FileReport) :
    Prop where
  elsewhere : ∀ path, path ≠ entry → after.tree.get? path = before.tree.get? path
  replaced : reports = [] ∧ after.tree.get? entry = before.tree.get? entry ∨
    ∃ report bytes text encoded mode, reports = [report] ∧ before.readFile scope.toText = .ok bytes ∧
      decodeLosslessly bytes options.encoding scope.toText = .ok text ∧
      encodeLosslessly (options.plan.revise text).text options.encoding scope.toText = .ok encoded ∧
      after.tree.get? entry = some (.file encoded mode)

theorem relinks_none (options : FileOptions) (scope entry : Path) (space : Workspace) :
    Relinks options scope entry space space [] := ⟨fun _ _ => rfl, .inl ⟨rfl, rfl⟩⟩

theorem Foretold.relinks {refusals : Nat → Refusals} {hook : Hook} {options : FileOptions} {token : Nat → Text}
    {scope entry : Path} {before after : Workspace} {outcomes : List FileOutcome}
    (foretold : Foretold refusals hook options token [scope] (fun _ => entry) before after outcomes)
    (tidy : ∀ index, (refusals index).Tidy) :
    Relinks options scope entry before after (outcomes.filterMap FileOutcome.change?) := by
  refine ⟨fun path apart => foretold.elsewhere tidy path fun member => apart (List.mem_singleton.mp member), ?_⟩
  obtain ⟨outcome, rfl⟩ := List.length_eq_one_iff.mp foretold.count
  obtain ⟨written, foretells, leaves⟩ := foretold.each 0 scope outcome rfl rfl
  generalize outlookUnder (refusals 0) before options scope.toText = told at foretells
  cases foretells with
  | settled unchanged =>
    left
    rw [List.filterMap_cons, unchanged]
    exact ⟨rfl, leaves⟩
  | hindered => exact .inl ⟨rfl, leaves⟩
  | @written bytes encoded text read decoded changed clear holds =>
    obtain ⟨mode, _, stands⟩ := leaves
    obtain ⟨report, reported, _⟩ := options.matched_changed ⟨scope.toText, bytes, text⟩ changed
    right
    rw [List.filterMap_cons, reported]
    exact ⟨report, bytes, text, encoded, _, rfl, read, decoded, holds, stands⟩

end Corpus

namespace Workspace

variable {space : Workspace} {plan : Plan} {options : RunOptions} {means : RunMeans} {files : List Path}

theorem revisedUnder_relinks {refusals : RunRefusals} (tidy : ∀ index, (refusals.calls index).Tidy)
    (real : options.preview = false) (quiet : means.hook.Quiet)
    (taken : space.TakesOnUnder refusals.opening options files)
    (fresh : Corpus.FreshTokens means.token files.length space.tree) {entry place : Path}
    (linked : space.Linked ((space.directoryOf options.directory).resolve options.scopeText) entry place) :
    Corpus.Relinks (options.fileOptions plan (space.directoryOf options.directory))
      ((space.directoryOf options.directory).resolve options.scopeText) entry space
      (space.revisedUnder refusals.calls plan options means files).1.space
      ((space.revisedUnder refusals.calls plan options means files).2.filterMap FileOutcome.change?) := by
  have reaches := Corpus.collect_reaches taken.collected
  rw [Path.resolve_toText] at reaches
  generalize (space.directoryOf options.directory).resolve options.scopeText = scope at reaches linked
  have nothing (none : Pool.limitOf options.concurrencyValue files.length = 0 ∨ files = []) :
      Corpus.Relinks (options.fileOptions plan (space.directoryOf options.directory)) scope entry space
        (space.revisedUnder refusals.calls plan options means files).1.space
        ((space.revisedUnder refusals.calls plan options means files).2.filterMap FileOutcome.change?) := by
    rw [revisedUnder, Corpus.reviseAllUnder, Corpus.runAll_none _ _ _ (none.imp id (congrArg (List.map Path.toText)))]
    exact Corpus.relinks_none _ _ _ _
  by_cases room : Pool.limitOf options.concurrencyValue files.length = 0
  · exact nothing (.inl room)
  cases reaches with
  | file found alone =>
    rcases alone with rfl | rfl
    · have plain : (options.fileOptions plan (space.directoryOf options.directory)).preview = false := real
      have foretold := Corpus.linked_foretold refusals.calls linked fresh quiet plain means.schedule
        (Nat.one_le_iff_ne_zero.mpr room)
      exact foretold.relinks tidy
    · exact nothing (.inr rfl)
  | directory reach =>
    obtain ⟨bytes, mode, found⟩ := linked.file
    have resolved := (Corpus.resolve_of_find found).2
    rw [Tree.resolve_toText, reach] at resolved
    cases resolved
  | other => exact nothing (.inr rfl)

/-- After a run there is the same kind of thing at every path, and a file that has changed reads as its revision by
whatever path led to it. If the scope is a link to a file, the link alone is replaced by a file with the revision, and
the file to which it led is as it was. A run that takes on no files fails and leaves the workspace as it was. Calls may be
refused to the run, though not so that a sibling stays behind. -/
theorem reviseCorpus_keeps_shape (refusals : RunRefusals) (tidy : ∀ index, (refusals.calls index).Tidy)
    (wellFormed : space.tree.WellFormed) (real : options.preview = false) (quiet : means.hook.Quiet)
    (fresh : ∀ files, space.TakesOnUnder refusals.opening options files →
      Corpus.FreshTokens means.token files.length space.tree) :
    (∀ files, space.TakesOnUnder refusals.opening options files → ∃ tally,
      (space.reviseCorpusUnder refusals plan options means).2.2 = .ok tally ∧
      ((∀ entry place,
          ¬ space.Linked ((space.directoryOf options.directory).resolve options.scopeText) entry place) →
        space.tree.Alike (space.reviseCorpusUnder refusals plan options means).2.1.space.tree ∧
        ∃ changes : List Change, changes.map Change.report = tally.files.filter FileReport.changed ∧ ∀ change ∈ changes,
          change.Made (options.fileOptions plan (space.directoryOf options.directory)) space
            (space.reviseCorpusUnder refusals plan options means).2.1.space ∧
          ∀ base t, space.tree.Opens base t change.place →
            Workspace.readFile ⟨(space.reviseCorpusUnder refusals plan options means).2.1.space.tree, base⟩ t =
              .ok change.encoded) ∧
      ∀ entry place, space.Linked ((space.directoryOf options.directory).resolve options.scopeText) entry place →
        Corpus.Relinks (options.fileOptions plan (space.directoryOf options.directory))
          ((space.directoryOf options.directory).resolve options.scopeText) entry space
          (space.reviseCorpusUnder refusals plan options means).2.1.space (tally.files.filter FileReport.changed)) ∧
    ((∀ files, ¬ space.TakesOnUnder refusals.opening options files) →
      ∃ failure, (space.reviseCorpusUnder refusals plan options means).2 = (⟨space, []⟩, .error failure)) := by
  refine ⟨fun files taken => ?_, reviseCorpusUnder_stopped⟩
  rw [reviseCorpusUnder_taken taken]
  refine ⟨_, rfl, fun unlinked => ?_, fun entry place linked => ?_⟩
  · obtain ⟨entryOf, layout⟩ := Corpus.collect_layout wellFormed taken.collected
    rw [Path.resolve_toText] at layout
    cases layout with
    | sited sited =>
      have plain : (options.fileOptions plan (space.directoryOf options.directory)).preview = false := real
      obtain ⟨changes, leftovers, reports, _, rewrites⟩ := Corpus.reviseAllUnder_rewrites sited (fresh files taken)
        plain quiet means.schedule (Pool.limitOf options.concurrencyValue files.length)
      obtain rfl := rewrites.tidy tidy
      refine ⟨rewrites.alike, changes, reports.trans (Tally.changed_eq _ _ _).symm, fun change member => ?_⟩
      exact ⟨rewrites.made change member, fun base t opens => rewrites.reads member opens⟩
    | linked linked => exact absurd linked (unlinked _ _)
  · rw [Tally.changed_eq]
    exact revisedUnder_relinks tidy real quiet taken (fresh files taken) linked

/-- A directory with one file, and beside it a link to the directory and a link to the file. -/
private def aliasSpace : Workspace :=
  ⟨⟨[(.ofText (units "/d"), .directory), (.ofText (units "/d/a.ts"), .file [0x78] 0o644),
    (.ofText (units "/k"), .link (units "d")), (.ofText (units "/l.ts"), .link (units "d/a.ts"))]⟩, .root⟩

private def aliasPlan : Plan := ⟨[], [⟨[⟨units "x", units "xy"⟩], by decide, by decide⟩]⟩

private def aliasOptions (scope : String) : RunOptions :=
  ⟨[], [], some (units scope), none, false, none, none, none, none, none⟩

private def aliasMeans : RunMeans :=
  ⟨⟨[], [], [], [], [], [], fun _ => []⟩, .silent, .turns, fun _ => units "0a-1f", .zero⟩

private theorem aliasSpace_wellFormed : aliasSpace.tree.WellFormed := ⟨by decide +kernel, by decide +kernel⟩

private theorem aliasMeans_fresh : Corpus.FreshTokens aliasMeans.token 1 aliasSpace.tree :=
  ⟨by decide +kernel, by decide +kernel, by decide +kernel⟩

/-- The scope is the link to the directory, and both links are still there when the file has been rewritten. -/
theorem reviseCorpus_keeps_shape_directory : ∃ (tally : Tally) (changes : List Change),
    (aliasSpace.reviseCorpus aliasPlan (aliasOptions "k") aliasMeans).2.2 = .ok tally ∧ tally.changed = 1 ∧
      aliasSpace.tree.Alike (aliasSpace.reviseCorpus aliasPlan (aliasOptions "k") aliasMeans).2.1.space.tree ∧
      changes.map Change.report = tally.files.filter FileReport.changed ∧ ∀ change ∈ changes, ∀ base t,
        aliasSpace.tree.Opens base t change.place →
          Workspace.readFile ⟨(aliasSpace.reviseCorpus aliasPlan (aliasOptions "k") aliasMeans).2.1.space.tree, base⟩ t =
            .ok change.encoded := by
  have taken : aliasSpace.TakesOn (aliasOptions "k") [.ofText (units "/k/a.ts")] :=
    ⟨by decide +kernel, by decide +kernel⟩
  have fresh : ∀ files, aliasSpace.TakesOnUnder RunRefusals.none.opening (aliasOptions "k") files →
      Corpus.FreshTokens aliasMeans.token files.length aliasSpace.tree := by
    intro files other
    obtain rfl := Except.ok.inj (taken.collected.symm.trans other.collected)
    exact aliasMeans_fresh
  have unlinked : ∀ entry place, ¬ aliasSpace.Linked
      ((aliasSpace.directoryOf (aliasOptions "k").directory).resolve (aliasOptions "k").scopeText) entry place := by
    rintro entry place ⟨_, bytes, mode, found⟩
    have looked : aliasSpace.tree.lookup aliasSpace.directory true
        ((aliasSpace.directoryOf (aliasOptions "k").directory).resolve (aliasOptions "k").scopeText).toText =
          .ok (.ofText (units "/d"), .directory) := by decide +kernel
    cases found.symm.trans (Corpus.find_of_lookup looked)
  obtain ⟨tally, returned, keeps, _⟩ :=
    (reviseCorpus_keeps_shape .none (fun _ => Refusals.tidy_none) aliasSpace_wellFormed rfl (fun _ _ => rfl) fresh).1 _
      (takesOnUnder_none.mpr taken)
  obtain ⟨alike, changes, reports, reads⟩ := keeps unlinked
  have one : (aliasSpace.reviseCorpusUnder .none aliasPlan (aliasOptions "k") aliasMeans).2.2.map Tally.changed =
      .ok 1 := by decide +kernel
  rw [returned] at one
  exact ⟨tally, changes, returned, Except.ok.inj one, alike, reports, fun change member => (reads change member).2⟩

/-- The scope is the link to the file. That link is gone, and the file reads as before. -/
theorem reviseCorpus_unlinks :
    aliasSpace.tree.WellFormed ∧ aliasMeans.hook.Quiet ∧
      aliasSpace.TakesOn (aliasOptions "l.ts") [.ofText (units "/l.ts")] ∧
      Corpus.FreshTokens aliasMeans.token 1 aliasSpace.tree ∧
      (aliasSpace.reviseCorpus aliasPlan (aliasOptions "l.ts") aliasMeans).2.2.map Tally.changed = .ok 1 ∧
      (aliasSpace.reviseCorpus aliasPlan (aliasOptions "l.ts") aliasMeans).2.1.space.readFile (units "/d/a.ts") =
        .ok [0x78] ∧
      ¬ aliasSpace.tree.Alike (aliasSpace.reviseCorpus aliasPlan (aliasOptions "l.ts") aliasMeans).2.1.space.tree := by
  refine ⟨aliasSpace_wellFormed, fun _ _ => rfl, ⟨by decide +kernel, by decide +kernel⟩, aliasMeans_fresh,
    by decide +kernel, by decide +kernel, fun alike => ?_⟩
  exact absurd (alike (.ofText (units "/l.ts"))) (by decide +kernel)

end Workspace

end Emend
