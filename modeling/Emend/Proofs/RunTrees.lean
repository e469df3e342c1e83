import Emend.Proofs.TreeShape

/-! The tree that a run leaves is as well formed as the tree that it found. Calls put one thing at a path, and nothing
comes or goes but the siblings of the files, so there are no names but those that there were. -/

namespace Emend

open Text FileError

namespace Tree

variable {tree : Tree}

def Once (tree : Tree) : Prop := (tree.entries.map Prod.fst).Nodup

theorem Once.erase (once : tree.Once) (path : Path) : (tree.erase path).Once :=
  List.Nodup.sublist (List.filter_sublist.map Prod.fst) once

theorem Once.put (once : tree.Once) (path : Path) (node : Node) : (tree.put path node).Once := by
  apply List.nodup_cons.mpr
  constructor
  · intro member
    obtain ⟨entry, among, same⟩ := List.mem_map.mp member
    exact bne_iff_ne.mp (List.mem_filter.mp among).2 same
  · exact once.erase path

/-- A tree is well formed if it holds no paths but those of a tree that is. -/
theorem WellFormed.of_standing {before : Tree} (wellFormed : before.WellFormed) (once : tree.Once)
    (standing : ∀ path, (tree.get? path).isSome = true → (before.get? path).isSome = true) : tree.WellFormed := by
  refine ⟨once, ?_⟩
  intro entry among name member
  obtain ⟨path, own⟩ := entry
  have apart : path ≠ .root := by
    rintro rfl
    cases member
  have there : (tree.get? path).isSome = true := by
    rw [get?_of_ne tree apart, lookup_of_mem once among]
    rfl
  have stood := standing _ there
  rw [get?_of_ne before apart] at stood
  obtain ⟨node, found⟩ := Option.isSome_iff_exists.mp stood
  obtain ⟨entry, amongToo, same⟩ := List.mem_map.mp (mem_of_lookup found)
  exact wellFormed.named entry amongToo name (same ▸ member)

end Tree

namespace Workspace

/-- What every call keeps that succeeds. -/
structure Kept (Holds : Workspace → Prop) : Prop where
  write : ∀ {space after : Workspace} {path : Text} {bytes : Bytes} {mode : Nat}, Holds space →
    space.writeFile path bytes mode = .ok after → Holds after
  rename : ∀ {space after : Workspace} {source target : Text}, Holds space →
    space.rename source target = .ok after → Holds after
  remove : ∀ {space after : Workspace} {path : Text}, Holds space → space.remove path = .ok after → Holds after

theorem once_kept : Kept fun space => space.tree.Once where
  write once written := by
    obtain ⟨found, _, rfl | ⟨kept, rfl⟩⟩ := writeFile_found written
    · exact once
    · exact once.put _ _
  rename once moved := by
    obtain ⟨place, node, goal, _, _, rfl⟩ := rename_found moved
    exact (once.erase place).put _ _
  remove once removed := by
    rcases remove_found removed with rfl | ⟨found, _, rfl⟩
    · exact once
    · exact once.erase _

end Workspace

theorem Script.step_keeps {α : Type} {Holds : Workspace → Prop} (kept : Workspace.Kept Holds) {hook : Hook}
    (quiet : hook.Quiet) {scene : Scene} (held : Holds scene.space) (script : Script α) :
    Holds (script.step hook scene).1.space := by
  have answered {result : Except FileError Workspace} (after : ∀ space, result = .ok space → Holds space) :
      Holds (answering scene result).1.space := by
    cases result with
    | error error => exact held
    | ok space => exact after space rfl
  cases script with
  | done value | read file next | stat file next => exact held
  | write file bytes mode next => exact answered fun after written => kept.write held written
  | rename source target next => exact answered fun after moved => kept.rename held moved
  | remove file next => exact answered fun after removed => kept.remove held removed
  | announce file text revised next =>
    have same : (hook scene.space ⟨file, text, revised⟩).1 = scene.space := quiet _ _
    show Holds (hook scene.space ⟨file, text, revised⟩).1
    rwa [same]

namespace Corpus

section

variable {Holds : Workspace → Prop} (kept : Workspace.Kept Holds) {hook : Hook} (quiet : hook.Quiet)

include kept quiet

theorem Passes.keeps {script : Nat → Script FileOutcome} {start progress : Progress} (begun : Holds start.scene.space)
    (passes : Passes script hook start progress) : Holds progress.scene.space := by
  induction passes with
  | start => exact begun
  | @step progress earlier busy place ih =>
    have inside : place % progress.queue.length < progress.queue.length :=
      Nat.mod_lt _ (List.length_pos_iff.mpr busy)
    have found := List.getElem?_eq_getElem inside
    generalize progress.queue[place % progress.queue.length] = entry at found
    obtain ⟨index, waiting⟩ := entry
    by_cases returned : ∃ outcome, waiting = .done outcome
    · obtain ⟨outcome, rfl⟩ := returned
      rw [step_done found]
      exact ih
    · rw [step_call (fun outcome same => returned ⟨outcome, same⟩) found]
      exact waiting.step_keeps kept quiet ih

theorem runAll_keeps {scene : Scene} (held : Holds scene.space) (script : Nat → Script FileOutcome)
    (schedule : Schedule) (limit : Nat) (files : List Text) :
    Holds (runAll script hook schedule limit files scene).1.space := by
  obtain ⟨progress, passes, ends⟩ := runAll_passes script hook schedule limit files scene
  rw [ends]
  exact passes.keeps kept quiet held

end

section

variable {refusals : Nat → Refusals} {hook : Hook} {options : FileOptions} {token : Nat → Text} {files : List Path}
  {entryOf : Path → Path} {space after : Workspace} {outcomes : List FileOutcome}

theorem Foretold.ended (foretold : Foretold refusals hook options token files entryOf space after outcomes)
    {index : Nat} (inside : index < files.length) : ∃ outcome written, outcomes[index]? = some outcome ∧
      Foretells (refusals index) hook space options (token index) files[index].toText
        (outlookUnder (refusals index) space options files[index].toText) written outcome ∧
      Leaves space files[index].toText (space.tree.get? (entryOf files[index]))
        (after.tree.get? (entryOf files[index])) written := by
  have insideToo : index < outcomes.length := foretold.count ▸ inside
  obtain ⟨written, foretells, leaves⟩ :=
    foretold.each index _ _ (List.getElem?_eq_getElem inside) (List.getElem?_eq_getElem insideToo)
  exact ⟨_, written, List.getElem?_eq_getElem insideToo, foretells, leaves⟩

/-- The entries of files are at most replaced by files. -/
theorem Foretold.entry (foretold : Foretold refusals hook options token files entryOf space after outcomes)
    (tidy : ∀ index, (refusals index).Tidy) (path : Path) :
    after.tree.get? path = space.tree.get? path ∨
      path ∈ files.map entryOf ∧ ∃ bytes mode, after.tree.get? path = some (.file bytes mode) := by
  by_cases own : path ∈ files.map entryOf
  · obtain ⟨file, member, rfl⟩ := List.mem_map.mp own
    obtain ⟨index, inside, rfl⟩ := List.getElem_of_mem member
    obtain ⟨_, written, _, _, leaves⟩ := foretold.ended inside
    cases written with
    | none => exact .inl leaves
    | some encoded =>
      obtain ⟨mode, _, stands⟩ := leaves
      exact .inr ⟨own, encoded, _, stands⟩
  · exact .inl (foretold.elsewhere tidy path own)

section

variable {scope entry : Path}
  (foretold : Foretold refusals hook options token [scope] (fun _ => entry) space after outcomes)
  (tidy : ∀ index, (refusals index).Tidy)

include foretold tidy

theorem Foretold.elsewhere_single (path : Path) (apart : path ≠ entry) :
    after.tree.get? path = space.tree.get? path := by
  apply foretold.elsewhere tidy
  intro member
  exact apart (List.mem_singleton.mp member)

theorem Foretold.same_single (kept : after.tree.get? entry = space.tree.get? entry) : after.Same space := by
  refine ⟨foretold.directory, ?_⟩
  intro path
  by_cases own : path = entry
  · exact own ▸ kept
  · exact foretold.elsewhere_single tidy path own

end

/-- Where the files have places of their own, a run leaves a tree like the one that it found. -/
theorem Sited.alike (sited : Sited space.tree files entryOf)
    (foretold : Foretold refusals hook options token files entryOf space after outcomes)
    (tidy : ∀ index, (refusals index).Tidy) : space.tree.Alike after.tree := by
  intro path
  rcases foretold.entry tidy path with same | ⟨own, bytes, mode, stands⟩
  · rw [same]
  · obtain ⟨file, member, rfl⟩ := List.mem_map.mp own
    obtain ⟨old, oldMode, there⟩ := sited.there file member
    rw [stands, there]
    rfl

theorem Foretold.standing {scope : Path}
    (foretold : Foretold refusals hook options token files entryOf space after outcomes)
    (tidy : ∀ index, (refusals index).Tidy) (layout : Layout space scope files entryOf) (path : Path)
    (there : (after.tree.get? path).isSome = true) :
    (space.tree.get? path).isSome = true := by
  cases layout with
  | sited sited =>
    have same := congrArg Option.isSome (sited.alike foretold tidy path)
    rw [Option.isSome_map, Option.isSome_map] at same
    rwa [← same]
  | linked linked =>
    rcases foretold.entry tidy path with same | ⟨own, _⟩
    · rwa [← same]
    · obtain ⟨_, _, target, link⟩ := linked.site
      obtain rfl := List.mem_singleton.mp own
      rw [link]
      rfl

end

end Corpus

namespace Workspace

variable {space : Workspace} {options : RunOptions} {means : RunMeans} {files : List Path}

/-- How the files of a run lie, and what the run has come to for each of them. -/
theorem revised_laid (refusals : RunRefusals) (plan : Plan) (wellFormed : space.tree.WellFormed)
    (steady : means.hook.Steady) (taken : space.TakesOnUnder refusals.opening options files)
    (fresh : Corpus.FreshTokens means.token files.length space.tree) (real : options.preview = false)
    (number : options.concurrencyValue ≠ .nan) :
    ∃ entryOf, Corpus.Layout space ((space.directory.resolve (space.directoryOf options.directory).toText).resolve
        options.scopeText) files entryOf ∧
      Corpus.Foretold refusals.calls means.hook (options.fileOptions plan (space.directoryOf options.directory))
        means.token files entryOf space (space.revisedUnder refusals.calls plan options means files).1.space
        (space.revisedUnder refusals.calls plan options means files).2 := by
  obtain ⟨entryOf, layout⟩ := Corpus.collect_layout wellFormed taken.collected
  exact ⟨entryOf, layout,
    layout.foretold refusals.calls fresh steady real means.schedule (Pool.limitOf_pos number files.length)⟩

theorem revised_wellFormed (refusals : RunRefusals) (tidy : ∀ index, (refusals.calls index).Tidy) (plan : Plan)
    (wellFormed : space.tree.WellFormed) (steady : means.hook.Steady)
    (taken : space.TakesOnUnder refusals.opening options files)
    (fresh : Corpus.FreshTokens means.token files.length space.tree) (real : options.preview = false) :
    (space.revisedUnder refusals.calls plan options means files).1.space.tree.WellFormed := by
  by_cases number : options.concurrencyValue = .nan
  · rw [revisedUnder_of_nan plan _ number]
    exact wellFormed
  · obtain ⟨entryOf, layout, foretold⟩ := revised_laid refusals plan wellFormed steady taken fresh real number
    apply wellFormed.of_standing
    · have once : space.tree.Once := wellFormed.once
      exact Corpus.runAll_keeps once_kept steady.quiet once _ _ _ _
    · exact foretold.standing tidy layout

end Workspace

end Emend
