import Emend.Proofs.CorpusRun
import Emend.Proofs.PoolFailure

/-! A run comes to the same whatever the schedule and however many files are in progress at a time: to what
comes of revising each file to its end before the next one is begun. -/

namespace Emend

open Text

/-- A caller that never changes the workspace, and whose reply depends on what it is told alone. -/
structure Hook.Steady (hook : Hook) : Prop where
  quiet : hook.Quiet
  same : ∀ space other announcement, (hook space announcement).2 = (hook other announcement).2

theorem Hook.Steady.unique {hook : Hook} (steady : hook.Steady) {announcement : Announcement}
    {reply other : Except Fault Unit} (given : hook.Replies announcement reply)
    (givenToo : hook.Replies announcement other) : reply = other := by
  obtain ⟨space, rfl⟩ := given
  obtain ⟨another, rfl⟩ := givenToo
  exact steady.same space another announcement

theorem Script.run_step {α : Type} (hook : Hook) (scene : Scene) (script : Script α) :
    script.run hook scene = (script.step hook scene).2.run hook (script.step hook scene).1 := by
  cases script <;> rfl

namespace Territory

variable {α : Type} {before : Tree} {territory : Territory before} {hook : Hook}

/-- A script has one end, since a caller has one reply to each announcement. -/
theorem Ends.unique (steady : hook.Steady) {contents after other : Contents} {script : Script α} {value result : α}
    (ends : territory.Ends hook.Replies contents script after value)
    (again : territory.Ends hook.Replies contents script other result) : other = after ∧ result = value := by
  induction ends with
  | done contents value => exact again.of_done
  | read _ ih => exact ih again.of_read
  | stat _ ih => exact ih again.of_stat
  | write _ ih => exact ih again.of_write
  | rename _ ih => exact ih again.of_rename
  | remove _ ih =>
    cases again with
    | remove rest => exact ih rest
  | announce given _ ih =>
    cases again with
    | announce givenToo rest => exact ih (steady.unique givenToo given ▸ rest)

theorem Outside.trans {one middle other : Tree} (first : territory.Outside one middle)
    (second : territory.Outside middle other) : territory.Outside one other := fun path place sibling =>
  (second path place sibling).trans (first path place sibling)

/-- A confined script that is run to its end leaves what is outside of its territory as it was. -/
theorem Confined.run (quiet : hook.Quiet) {calls : Nat} {scene : Scene} {contents : Contents} {script : Script α}
    (has : territory.Has scene.space.tree contents) (confined : territory.Confined calls script) :
    ∃ changed, territory.Ends hook.Replies contents script changed (script.run hook scene).2 ∧
      territory.Has (script.run hook scene).1.space.tree changed ∧
      territory.Outside scene.space.tree (script.run hook scene).1.space.tree ∧
      (script.run hook scene).1.space.directory = scene.space.directory := by
  induction calls using Nat.strongRecOn generalizing scene contents script with
  | ind calls ih =>
    by_cases returned : ∃ value, script = .done value
    · obtain ⟨value, rfl⟩ := returned
      exact ⟨contents, .done contents value, has, fun _ _ _ => rfl, rfl⟩
    · obtain ⟨middle, left, fewer, hasMiddle, outside, same, again, onward⟩ :=
        confined.step quiet has fun value equal => returned ⟨value, equal⟩
      obtain ⟨changed, ends, hasChanged, outsideToo, sameToo⟩ := ih left fewer hasMiddle again
      rw [Script.run_step]
      exact ⟨changed, onward _ _ ends, hasChanged, outside.trans outsideToo, sameToo.trans same⟩

end Territory

namespace Corpus

/-- Revise files one after the other, each to its end before the next one is begun. They are numbered from
an index on. -/
def reviseInOrder (refusals : Nat → Refusals) (options : FileOptions) (token : Nat → Text) (hook : Hook) :
    Nat → List Text → Scene → Scene × List FileOutcome
  | _, [], scene => (scene, [])
  | index, file :: rest, scene =>
    let (after, outcome) := ((revise options (token index) file).under (refusals index) 0).run hook scene
    let (last, outcomes) := reviseInOrder refusals options token hook (index + 1) rest after
    (last, outcome :: outcomes)

section

variable {before : Tree} {count : Nat} {territories : Fin count → Territory before}

theorem Shares.same {tree other : Tree} {contents others : Nat → Contents} (shares : Shares territories tree contents)
    (sharesToo : Shares territories other others) (equal : ∀ index : Fin count, contents index = others index)
    (path : Path) : tree.get? path = other.get? path := by
  by_cases place : ∃ index, path = (territories index).place
  · obtain ⟨index, rfl⟩ := place
    rw [(shares.has index).file, (sharesToo.has index).file, equal]
  · by_cases sibling : ∃ index, path = (territories index).sibling
    · obtain ⟨index, rfl⟩ := sibling
      rw [(shares.has index).sibling, (sharesToo.has index).sibling, equal]
    · have apart : ∀ index, path ≠ (territories index).place ∧ path ≠ (territories index).sibling :=
        fun index => ⟨fun same => place ⟨index, same⟩, fun same => sibling ⟨index, same⟩⟩
      rw [shares.elsewhere path apart, sharesToo.elsewhere path apart]

variable (separate : Separate territories) {hook : Hook} (quiet : hook.Quiet) (refusals : Nat → Refusals)
  (options : FileOptions) {token : Nat → Text} {files : List Text} (length : files.length = count)
  (own : ∀ index : Fin count, files[(index : Nat)]? = some (territories index).path.toText)
  (beside : ∀ index : Fin count,
    temporaryPath (token index) (territories index).path.toText = (territories index).temporary.toText)

include separate quiet length own beside

/-- By induction on the files that are left: those before them have come to their ends, and the territories of
these are as they were. -/
theorem reviseInOrder_ends {first : Nat} {rest : List Text} (left : files.drop first = rest) (scene : Scene)
    {contents : Nat → Contents} (shares : Shares territories scene.space.tree contents)
    (untouched : ∀ index : Fin count, first ≤ index → contents index = (territories index).initial) :
    ∃ (final : Nat → Contents) (outcome : Nat → FileOutcome),
      (reviseInOrder refusals options token hook first rest scene).1.space.directory = scene.space.directory ∧
      Shares territories (reviseInOrder refusals options token hook first rest scene).1.space.tree final ∧
      (reviseInOrder refusals options token hook first rest scene).2 = (List.range' first rest.length).map outcome ∧
      (∀ index < first, final index = contents index) ∧
      ∀ index : Fin count, first ≤ index → (territories index).Ends hook.Replies (territories index).initial
        ((revise options (token index) (territories index).path.toText).under (refusals index) 0) (final index)
        (outcome index) := by
  induction rest generalizing first scene contents with
  | nil =>
    have beyond : count ≤ first := length ▸ List.drop_eq_nil_iff.mp left
    refine ⟨contents, fun _ => .unmatched, rfl, shares, rfl, fun _ _ => rfl, fun index late => ?_⟩
    exact absurd index.isLt (Nat.not_lt.mpr (Nat.le_trans beyond late))
  | cons file rest ih =>
    have inside : first < count := by
      by_contra beyond
      rw [List.drop_eq_nil_of_le (by omega)] at left
      cases left
    rw [List.drop_eq_getElem_cons (length ▸ inside)] at left
    obtain ⟨here, later⟩ := List.cons.inj left
    have named := own ⟨first, inside⟩
    rw [List.getElem?_eq_getElem (length ▸ inside), here] at named
    obtain rfl := Option.some.inj named
    have confined : (territories ⟨first, inside⟩).Confined 7
        ((revise options (token first) (territories ⟨first, inside⟩).path.toText).under (refusals first) 0) :=
      Territory.confined_revise (beside ⟨first, inside⟩) (refusals first)
    obtain ⟨changed, ends, has, outside, same⟩ := confined.run quiet (shares.has ⟨first, inside⟩)
    rw [untouched ⟨first, inside⟩ (Nat.le_refl first)] at ends
    obtain ⟨final, outcome, sameToo, sharesFinal, listed, kept, ended⟩ :=
      ih later _ (shares.update separate ⟨first, inside⟩ has outside) fun index late => by
        rw [Function.update_of_ne (by simp only; omega)]
        exact untouched index (by omega)
    have own_ : final first = changed := by
      rw [kept first (Nat.lt_succ_self first), Function.update_self]
    refine ⟨final, Function.update outcome first
        (((revise options (token first) (territories ⟨first, inside⟩).path.toText).under (refusals first) 0).run
          hook scene).2,
      sameToo.trans same, sharesFinal, ?_, ?_, ?_⟩
    · rw [reviseInOrder]
      simp only
      rw [listed, List.length_cons, List.range'_succ, List.map_cons, Function.update_self]
      congr 1
      apply List.map_congr_left
      intro index member
      rw [Function.update_of_ne]
      have low := (List.mem_range'_1.mp member).1
      omega
    · intro index early
      rw [kept index (Nat.lt_succ_of_lt early), Function.update_of_ne (by simp only; omega)]
    · intro index late
      by_cases equal : (index : Nat) = first
      · obtain rfl : index = ⟨first, inside⟩ := Fin.ext equal
        rw [own_, Function.update_self]
        exact ends
      · rw [Function.update_of_ne equal]
        exact ended index (by omega)

end

theorem reviseAllUnder_inOrder {space : Workspace} {files : List Path} {placeOf : Path → Path}
    (sited : Sited space.tree files placeOf) {token : Nat → Text} (fresh : FreshTokens token files.length space.tree)
    {hook : Hook} (steady : hook.Steady) (refusals : Nat → Refusals) (options : FileOptions) (schedule : Schedule)
    {limit : Nat} (room : 1 ≤ limit) :
    let run := reviseAllUnder refusals options token hook schedule limit (files.map Path.toText) ⟨space, []⟩
    let one := reviseInOrder refusals options token hook 0 (files.map Path.toText) ⟨space, []⟩
    run.2 = one.2 ∧ run.1.space.directory = one.1.space.directory ∧
      ∀ path, run.1.space.tree.get? path = one.1.space.tree.get? path := by
  intro run one
  obtain ⟨territories, assigned⟩ := exists_territories sited fresh
  have length : (files.map Path.toText).length = files.length := List.length_map _
  obtain ⟨contents, outcome, directory, shares, listed, ends⟩ :=
    reviseAllUnder_ends length assigned.separate steady.quiet options assigned.listed assigned.beside schedule room
      refusals
  obtain ⟨final, result, directoryToo, sharesToo, listedToo, _, endsToo⟩ :=
    reviseInOrder_ends assigned.separate steady.quiet refusals options length assigned.listed assigned.beside
      (List.drop_zero (l := files.map Path.toText)) ⟨space, []⟩ (shares_start territories)
      fun index _ => startContents_fin territories index
  have equal : ∀ index : Fin files.length, contents index = final index ∧ outcome index = result index :=
    fun index => (endsToo index (Nat.zero_le _)).unique steady (ends index)
  refine ⟨?_, directory.trans directoryToo.symm, shares.same sharesToo fun index => (equal index).1⟩
  rw [listed, listedToo, length, List.range_eq_range']
  apply List.map_congr_left
  intro index member
  exact (equal ⟨index, by simpa using List.mem_range'_1.mp member⟩).2

/-- The script of a single file makes its calls one after the other. Its state is the scene in which it
makes the next one. -/
def solitude (hook : Hook) (path temporary : Text) (goal : Scene × FileOutcome) : Discipline Scene 1 hook where
  Holds scene states := scene = states 0
  Fits _ state calls script := (∃ stage, script.Orderly path temporary stage calls) ∧ script.run hook state = goal
  call := by
    intro scene states index calls script inside same fits busy
    obtain rfl : index = 0 := Nat.lt_one_iff.mp inside
    subst same
    obtain ⟨⟨stage, orderly⟩, ends⟩ := fits
    obtain ⟨later, left, fewer, _, again⟩ := orderly.step hook (states 0) busy
    rw [Script.run_step] at ends
    refine ⟨(script.step hook (states 0)).1, left, fewer, ?_, ⟨later, again⟩, ends⟩
    rw [Function.update_self]

/-- A run on one file has nothing to schedule. -/
theorem runAll_single {script : Nat → Script FileOutcome} {path temporary : Text}
    (orderly : (script 0).Orderly path temporary .clear 7) (hook : Hook) (schedule : Schedule) {limit : Nat}
    (room : 1 ≤ limit) (file : Text) (scene : Scene) :
    runAll script hook schedule limit [file] scene =
      (((script 0).run hook scene).1, [((script 0).run hook scene).2]) := by
  let goal := (script 0).run hook scene
  let discipline := solitude hook path temporary goal
  have length : [file].length = 1 := rfl
  have start : discipline.Holds scene fun _ => scene := rfl
  have fits : ∀ index < 1, discipline.Fits index scene 7 (script index) := by
    intro index inside
    obtain rfl : index = 0 := Nat.lt_one_iff.mp inside
    exact ⟨⟨.clear, orderly⟩, rfl⟩
  obtain ⟨final, outcome, holds, listed, ended⟩ := discipline.runAll length start room fits schedule
  obtain ⟨left, _, ends⟩ := ended 0 Nat.one_pos
  have last : (final 0, outcome 0) = goal := ends
  refine Prod.ext (holds.trans (congrArg Prod.fst last)) (listed.trans ?_)
  show [outcome 0] = [goal.2]
  rw [← last]

section

variable (options : FileOptions) (token : Nat → Text) (hook : Hook) (schedule : Schedule) {limit : Nat}
  (room : 1 ≤ limit) (file : Text) (scene : Scene)

include room

theorem reviseAllUnder_single (refusals : Nat → Refusals) :
    reviseAllUnder refusals options token hook schedule limit [file] scene =
      reviseInOrder refusals options token hook 0 [file] scene :=
  runAll_single (orderly_revise.under (refusals 0) 0) hook schedule room file scene

end

end Corpus

/-- The same stands at every path of two workspaces. -/
structure Workspace.Same (one other : Workspace) : Prop where
  directory : one.directory = other.directory
  standing : ∀ path, one.tree.get? path = other.tree.get? path

namespace Workspace

variable {space : Workspace} (plan : Plan) {options : RunOptions} {means : RunMeans} {files : List Path}

def revisedInOrder (refusals : Nat → Refusals) (space : Workspace) (plan : Plan) (options : RunOptions)
    (means : RunMeans) (files : List Path) : Scene × List FileOutcome :=
  Corpus.reviseInOrder refusals (options.fileOptions plan (space.directoryOf options.directory)) means.token means.hook 0
    (files.map Path.toText) ⟨space, []⟩

def tallyOf (space : Workspace) (options : RunOptions) (files : List Path) (outcomes : List FileOutcome) : Tally :=
  Tally.ofOutcomes ((space.directoryOf options.directory).resolve options.scopeText).toText options.preview
    files.length outcomes

/-- The files have places of their own, or there is one of them at most, which may be a link. -/
theorem revisedUnder_inOrder {refusals : RunRefusals} (wellFormed : space.tree.WellFormed)
    (steady : means.hook.Steady) (taken : space.TakesOnUnder refusals.opening options files)
    (fresh : Corpus.FreshTokens means.token files.length space.tree) (number : options.concurrencyValue ≠ .nan) :
    (space.revisedUnder refusals.calls plan options means files).2 =
        (space.revisedInOrder refusals.calls plan options means files).2 ∧
      (space.revisedUnder refusals.calls plan options means files).1.space.Same
        (space.revisedInOrder refusals.calls plan options means files).1.space := by
  have room := Pool.limitOf_pos number files.length
  have exactly : space.revisedUnder refusals.calls plan options means files =
        space.revisedInOrder refusals.calls plan options means files →
      (space.revisedUnder refusals.calls plan options means files).2 =
          (space.revisedInOrder refusals.calls plan options means files).2 ∧
        (space.revisedUnder refusals.calls plan options means files).1.space.Same
          (space.revisedInOrder refusals.calls plan options means files).1.space :=
    fun same => same ▸ ⟨rfl, rfl, fun _ => rfl⟩
  cases Corpus.collect_reaches taken.collected with
  | file found alone =>
    rcases alone with rfl | rfl
    · exact exactly (Corpus.reviseAllUnder_single _ _ _ _ room _ _ _)
    · exact exactly (Corpus.runAll_none _ _ _ (.inr rfl) _)
  | directory reach =>
    obtain ⟨placeOf, sited, _⟩ := Corpus.walk_sited _ wellFormed _ reach
    obtain ⟨outcomes, directory, standing⟩ := Corpus.reviseAllUnder_inOrder sited fresh steady refusals.calls
      (options.fileOptions plan (space.directoryOf options.directory)) means.schedule room
    exact ⟨outcomes, directory, standing⟩
  | other => exact exactly (Corpus.runAll_none _ _ _ (.inr rfl) _)

theorem revised_of_nan (nan : options.concurrencyValue = .nan) (files : List Path) :
    space.revised plan options means files = (⟨space, []⟩, []) := by
  rw [revised, nan, Pool.limitOf, if_pos rfl, Corpus.reviseAll, Corpus.runAll_none _ _ _ (.inl rfl)]

theorem revisedUnder_of_nan (refusals : Nat → Refusals) (nan : options.concurrencyValue = .nan) (files : List Path) :
    space.revisedUnder refusals plan options means files = (⟨space, []⟩, []) := by
  rw [revisedUnder, nan, Pool.limitOf, if_pos rfl, Corpus.reviseAllUnder, Corpus.runAll_none _ _ _ (.inl rfl)]

section Refused

variable {refusals : RunRefusals} {failure : Failure}

theorem reviseCorpusUnder_outside
    (outside : space.checkBoundary (space.directoryOf options.directory).toText
      ((space.directoryOf options.directory).resolve options.scopeText).toText (units "Scope") = .error failure) :
    (space.reviseCorpusUnder refusals plan options means).2 = (⟨space, []⟩, .error failure) := by
  rw [reviseCorpusUnder, outside]

theorem reviseCorpusUnder_uncollected
    (inside : space.checkBoundary (space.directoryOf options.directory).toText
      ((space.directoryOf options.directory).resolve options.scopeText).toText (units "Scope") = .ok ())
    (missing : Corpus.collectUnder refusals.opening space ⟨(space.directoryOf options.directory).toText,
      options.scopeText, options.extensions, options.excluded⟩ = .error failure) :
    (space.reviseCorpusUnder refusals plan options means).2 = (⟨space, []⟩, .error failure) := by
  rw [reviseCorpusUnder, inside]
  simp only [missing]

end Refused

/-- Whatever the schedule and however many files may be in progress, a run that takes on some files leaves the
workspace that comes of revising them one at a time, in their order, and makes the report of that. Where the
number of files in progress is not a number, nothing is revised. A run that takes on none fails in one way. Which calls
are refused depends on the file and on how many calls have been made for it, not on when they are made. -/
theorem reviseCorpus_unscheduled (refusals : RunRefusals) (wellFormed : space.tree.WellFormed)
    (steady : means.hook.Steady)
    (fresh : ∀ files, space.TakesOnUnder refusals.opening options files →
      Corpus.FreshTokens means.token files.length space.tree) :
    (∀ files, space.TakesOnUnder refusals.opening options files → options.concurrencyValue ≠ .nan →
      (space.reviseCorpusUnder refusals plan options means).2.2 =
        .ok (space.tallyOf options files (space.revisedInOrder refusals.calls plan options means files).2) ∧
      (space.reviseCorpusUnder refusals plan options means).2.1.space.Same
        (space.revisedInOrder refusals.calls plan options means files).1.space) ∧
    (∀ files, space.TakesOnUnder refusals.opening options files → options.concurrencyValue = .nan →
      (space.reviseCorpusUnder refusals plan options means).2 = (⟨space, []⟩, .ok (space.tallyOf options files []))) ∧
    ((∀ files, ¬ space.TakesOnUnder refusals.opening options files) → ∃ failure, ∀ concurrency schedule,
      (space.reviseCorpusUnder refusals plan { options with concurrency } { means with schedule }).2 =
        (⟨space, []⟩, .error failure)) := by
  refine ⟨fun files taken number => ?_, fun files taken nan => ?_, fun refused => ?_⟩
  · obtain ⟨outcomes, same⟩ := revisedUnder_inOrder plan wellFormed steady taken (fresh files taken) number
    rw [reviseCorpusUnder_taken taken, outcomes]
    exact ⟨rfl, same⟩
  · rw [reviseCorpusUnder_taken taken, revisedUnder_of_nan plan _ nan]
    rfl
  · cases inside : space.checkBoundary (space.directoryOf options.directory).toText
        ((space.directoryOf options.directory).resolve options.scopeText).toText (units "Scope") with
    | error failure => exact ⟨failure, fun _ _ => reviseCorpusUnder_outside plan inside⟩
    | ok =>
      cases collected : Corpus.collectUnder refusals.opening space ⟨(space.directoryOf options.directory).toText,
          options.scopeText, options.extensions, options.excluded⟩ with
      | error failure => exact ⟨failure, fun _ _ => reviseCorpusUnder_uncollected plan inside collected⟩
      | ok files => exact absurd ⟨inside, collected⟩ (refused files)

private def pairSpace : Workspace :=
  ⟨⟨[(.ofText (units "/d"), .directory), (.ofText (units "/d/a.ts"), .file [0x78] 0o644),
    (.ofText (units "/d/b.ts"), .file [0x78, 0x78] 0o600), (.ofText (units "/c.ts"), .link (units "d/a.ts"))]⟩, .root⟩

private def pairPlan : Plan := ⟨[], [⟨[⟨units "x", units "yz"⟩], by decide, by decide⟩]⟩

private def pairOptions : RunOptions :=
  ⟨[], [], some (units "d"), none, false, none, none, none, some (.finite false 5 (-1)), none⟩

/-- The second of two files in progress goes first when it can. -/
private def pairMeans : RunMeans :=
  ⟨⟨[], [], [], [], [], [], fun _ => []⟩, .silent, fun _ => 1,
    fun index => units "0a-" ++ [UInt16.ofNat (0x30 + index)], .zero⟩

private def pairFiles : List Path := [.ofText (units "/d/a.ts"), .ofText (units "/d/b.ts")]

private theorem pairSpace_wellFormed : pairSpace.tree.WellFormed := ⟨by decide +kernel, by decide +kernel⟩

private theorem pairSpace_takesOn : pairSpace.TakesOn pairOptions pairFiles := by
  have listed : pairSpace.tree.list (.ofText (units "/d")) =
      [(⟨units "a.ts", rfl⟩, .file [0x78] 0o644), (⟨units "b.ts", rfl⟩, .file [0x78, 0x78] 0o600)] :=
    List.mergeSort_of_pairwise (by decide +kernel)
  have named : Workspace.naming "stat" (units "/d") (pairSpace.tree.lookup pairSpace.directory true (units "/d")) =
      .ok (.ofText (units "/d"), .directory) := by decide +kernel
  have scope : ((pairSpace.directory.resolve (pairSpace.directoryOf pairOptions.directory).toText).resolve
      pairOptions.scopeText) = .ofText (units "/d") := by decide +kernel
  have text : (Path.ofText (units "/d")).toText = units "/d" := by decide +kernel
  refine ⟨by decide +kernel, ?_⟩
  rw [Corpus.collect, Corpus.collectUnder]
  simp only [scope, text, named, Corpus.unopened?, Corpus.shut?, Corpus.walk, listed]
  decide +kernel

private theorem pairMeans_steady : pairMeans.hook.Steady := ⟨fun _ _ => rfl, fun _ _ _ => rfl⟩

private theorem pairMeans_fresh : Corpus.FreshTokens pairMeans.token pairFiles.length pairSpace.tree :=
  ⟨by decide +kernel, by decide +kernel, by decide +kernel⟩

private def pairInOrder : Scene × List FileOutcome :=
  pairSpace.revisedInOrder RunRefusals.none.calls pairPlan pairOptions pairMeans pairFiles

private theorem pairInOrder_changed : (pairSpace.tallyOf pairOptions pairFiles pairInOrder.2).changed = 2 := by
  decide +kernel

theorem reviseCorpus_unscheduled_pair :
    pairSpace.TakesOn pairOptions pairFiles ∧ pairOptions.concurrencyValue ≠ .nan ∧
      (pairSpace.tallyOf pairOptions pairFiles pairInOrder.2).changed = 2 ∧
      (pairSpace.reviseCorpus pairPlan pairOptions pairMeans).2.2 =
        .ok (pairSpace.tallyOf pairOptions pairFiles pairInOrder.2) ∧
      (pairSpace.reviseCorpus pairPlan pairOptions pairMeans).2.1.space.Same pairInOrder.1.space := by
  have number : pairOptions.concurrencyValue ≠ .nan := by decide
  have fresh : ∀ files, pairSpace.TakesOnUnder RunRefusals.none.opening pairOptions files →
      Corpus.FreshTokens pairMeans.token files.length pairSpace.tree := by
    intro files other
    obtain rfl := Except.ok.inj (pairSpace_takesOn.collected.symm.trans other.collected)
    exact pairMeans_fresh
  exact ⟨pairSpace_takesOn, number, pairInOrder_changed,
    (reviseCorpus_unscheduled pairPlan .none pairSpace_wellFormed pairMeans_steady fresh).1 pairFiles
      (takesOnUnder_none.mpr pairSpace_takesOn) number⟩

/-- The same run with a number of files in progress that is not a number revises neither of its files. -/
theorem reviseCorpus_idle :
    pairSpace.tree.WellFormed ∧ pairMeans.hook.Steady ∧ pairSpace.TakesOn pairOptions pairFiles ∧
      Corpus.FreshTokens pairMeans.token pairFiles.length pairSpace.tree ∧
      ¬ ∀ concurrency schedule,
        (pairSpace.reviseCorpus pairPlan { pairOptions with concurrency } { pairMeans with schedule }).2.2 =
            .ok (pairSpace.tallyOf pairOptions pairFiles pairInOrder.2) ∧
          (pairSpace.reviseCorpus pairPlan { pairOptions with concurrency } { pairMeans with schedule }).2.1.space.Same
            pairInOrder.1.space := by
  refine ⟨pairSpace_wellFormed, pairMeans_steady, pairSpace_takesOn, pairMeans_fresh, fun equal => ?_⟩
  have taken : pairSpace.TakesOn { pairOptions with concurrency := some .nan } pairFiles :=
    ⟨pairSpace_takesOn.inside, pairSpace_takesOn.collected⟩
  have report := (equal (some .nan) pairMeans.schedule).1
  rw [reviseCorpus_taken taken, revised_of_nan pairPlan rfl] at report
  have changed := congrArg Tally.changed (Except.ok.inj report)
  rw [pairInOrder_changed] at changed
  exact absurd changed (by decide +kernel)

end Workspace

end Emend
