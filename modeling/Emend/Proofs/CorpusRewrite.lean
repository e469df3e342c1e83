import Emend.Proofs.FileRevision
import Emend.Proofs.RunProgress

/-! A run over a corpus. The scripts of all files go on in turns, but each keeps to its own territory, so
every file ends as it does alone, and the rest of the tree is as it was. -/

namespace Emend

open Text FileError

namespace Corpus

def Separate {before : Tree} {count : Nat} (territories : Fin count → Territory before) : Prop :=
  ∀ first second, first ≠ second → (territories first).place ≠ (territories second).place ∧
    (territories first).sibling ≠ (territories second).sibling

section

variable {before : Tree} {count : Nat} {territories : Fin count → Territory before}

theorem place_ne_sibling (first second : Fin count) : (territories first).place ≠ (territories second).sibling := by
  intro same
  have there := (territories first).standing
  rw [same, (territories second).free] at there
  cases there

/-- The contents of all territories, and everything else as it was. -/
structure Shares (territories : Fin count → Territory before) (tree : Tree) (contents : Nat → Contents) : Prop where
  has : ∀ index, (territories index).Has tree (contents index)
  elsewhere : ∀ path, (∀ index, path ≠ (territories index).place ∧ path ≠ (territories index).sibling) →
    tree.get? path = before.get? path

theorem Shares.update (separate : Separate territories) {tree after : Tree} {contents : Nat → Contents}
    (shares : Shares territories tree contents) (index : Fin count) {changed : Contents}
    (has : (territories index).Has after changed) (outside : (territories index).Outside tree after) :
    Shares territories after (Function.update contents index changed) := by
  constructor
  · intro other
    by_cases same : other = index
    · subst same
      rw [Function.update_self]
      exact has
    · have different : (other : Nat) ≠ index := fun equal => same (Fin.ext equal)
      obtain ⟨places, siblings⟩ := separate other index same
      rw [Function.update_of_ne different]
      obtain ⟨_, file, sibling⟩ := shares.has other
      refine ⟨has.keeps, ?_, ?_⟩
      · rw [outside _ places (place_ne_sibling other index)]
        exact file
      · rw [outside _ (Ne.symm (place_ne_sibling index other)) siblings]
        exact sibling
  · intro path apart
    rw [outside path (apart index).1 (apart index).2]
    exact shares.elsewhere path apart

/-- Scripts in turns, each confined to a territory, end as they do alone. -/
def confinement (separate : Separate territories) (directory : Path) {hook : Hook} (quiet : hook.Quiet)
    (script : Fin count → Script FileOutcome) : Discipline Contents count hook where
  Holds scene contents := scene.space.directory = directory ∧ Shares territories scene.space.tree contents
  Fits index contents calls left := ∀ inside : index < count,
    (territories ⟨index, inside⟩).Confined calls left ∧
    ∀ after outcome, (territories ⟨index, inside⟩).Ends hook.Replies contents left after outcome →
      (territories ⟨index, inside⟩).Ends hook.Replies (territories ⟨index, inside⟩).initial
        (script ⟨index, inside⟩) after outcome
  call := by
    intro scene contents index calls left inside holds fits busy
    obtain ⟨confined, ends⟩ := fits inside
    obtain ⟨changed, fewer, smaller, has, outside, same, again, onward⟩ :=
      confined.step quiet (holds.2.has ⟨index, inside⟩) busy
    exact ⟨changed, fewer, smaller, ⟨same.trans holds.1, holds.2.update separate ⟨index, inside⟩ has outside⟩,
      fun _ => ⟨again, fun after outcome reach => ends after outcome (onward after outcome reach)⟩⟩

def startContents (territories : Fin count → Territory before) (index : Nat) : Contents :=
  if inside : index < count then (territories ⟨index, inside⟩).initial else ⟨([], 0), none⟩

theorem startContents_fin (territories : Fin count → Territory before) (index : Fin count) :
    startContents territories index = (territories index).initial := dif_pos index.isLt

theorem shares_start (territories : Fin count → Territory before) :
    Shares territories before (startContents territories) where
  has index := startContents_fin territories index ▸ (territories index).has_initial
  elsewhere := fun _ _ => rfl

end

section

variable {space : Workspace} {count : Nat} {files : List Text} (length : files.length = count)
  {territories : Fin count → Territory space.tree} (separate : Separate territories) {hook : Hook} (quiet : hook.Quiet)

include separate quiet

theorem confinement_fits {script : Nat → Script FileOutcome}
    (confined : ∀ index : Fin count, (territories index).Confined 7 (script index)) (index : Nat) :
    (confinement separate space.directory quiet fun index => script index).Fits index (startContents territories index) 7
      (script index) := by
  intro inside
  refine ⟨confined ⟨index, inside⟩, fun after outcome ends => ?_⟩
  rwa [startContents_fin territories ⟨index, inside⟩] at ends

include length

/-- Whatever the schedule, each script ends as it does on the contents of its territory alone. -/
theorem runAll_ends {script : Nat → Script FileOutcome}
    (confined : ∀ index : Fin count, (territories index).Confined 7 (script index)) (schedule : Schedule) {limit : Nat}
    (room : 1 ≤ limit) :
    ∃ (contents : Nat → Contents) (outcome : Nat → FileOutcome),
      (runAll script hook schedule limit files ⟨space, []⟩).1.space.directory = space.directory ∧
      Shares territories (runAll script hook schedule limit files ⟨space, []⟩).1.space.tree contents ∧
      (runAll script hook schedule limit files ⟨space, []⟩).2 = (List.range count).map outcome ∧
      ∀ index : Fin count, (territories index).Ends hook.Replies (territories index).initial (script index)
        (contents index) (outcome index) := by
  let discipline := confinement separate space.directory quiet fun index => script index
  have start : discipline.Holds ⟨space, []⟩ (startContents territories) := ⟨rfl, shares_start territories⟩
  obtain ⟨contents, outcome, ⟨same, shares⟩, listed, returned⟩ := discipline.runAll length start room
    (fun index _ => confinement_fits separate quiet confined index) schedule
  refine ⟨contents, outcome, same, shares, listed, fun index => ?_⟩
  obtain ⟨left, ended⟩ := returned index index.isLt
  obtain ⟨_, back⟩ := ended index.isLt
  exact back _ _ (.done _ _)

variable (options : FileOptions) {token : Nat → Text}
  (own : ∀ index : Fin count, files[(index : Nat)]? = some (territories index).path.toText)
  (beside : ∀ index : Fin count,
    temporaryPath (token index) (territories index).path.toText = (territories index).temporary.toText)

omit length separate quiet in
include own in
theorem scriptAt_own (index : Fin count) : scriptAt options token files index =
    revise options (token index) (territories index).path.toText := by
  rw [scriptAt, own]

include own beside

omit length separate quiet in
theorem confined_scriptUnder (refusals : Nat → Refusals) (index : Fin count) :
    (territories index).Confined 7 (scriptUnder refusals options token files index) := by
  rw [scriptUnder, scriptAt_own options own]
  exact Territory.confined_revise (beside index) (refusals index)

variable (schedule : Schedule) {limit : Nat} (room : 1 ≤ limit) (refusals : Nat → Refusals)

include room

theorem reviseAllUnder_ends :
    ∃ (contents : Nat → Contents) (outcome : Nat → FileOutcome),
      (reviseAllUnder refusals options token hook schedule limit files ⟨space, []⟩).1.space.directory =
        space.directory ∧
      Shares territories (reviseAllUnder refusals options token hook schedule limit files ⟨space, []⟩).1.space.tree
        contents ∧
      (reviseAllUnder refusals options token hook schedule limit files ⟨space, []⟩).2 = (List.range count).map outcome ∧
      ∀ index : Fin count, (territories index).Ends hook.Replies (territories index).initial
        ((revise options (token index) (territories index).path.toText).under (refusals index) 0) (contents index)
        (outcome index) := by
  obtain ⟨contents, outcome, same, shares, listed, ends⟩ :=
    runAll_ends length separate quiet (confined_scriptUnder options own beside refusals) schedule room
  exact ⟨contents, outcome, same, shares, listed, fun index => scriptAt_own options own index ▸ ends index⟩

theorem reviseAllUnder_revised :
    ∃ (contents : Nat → Contents) (outcome : Nat → FileOutcome),
      Shares territories (reviseAllUnder refusals options token hook schedule limit files ⟨space, []⟩).1.space.tree
        contents ∧
      (reviseAllUnder refusals options token hook schedule limit files ⟨space, []⟩).2 = (List.range count).map outcome ∧
      ∀ index : Fin count, (territories index).RevisedUnder (refusals index) options (territories index).initial
        (contents index) (outcome index) := by
  obtain ⟨contents, outcome, _, shares, listed, ends⟩ :=
    reviseAllUnder_ends length separate quiet options own beside schedule room refusals
  exact ⟨contents, outcome, shares, listed, fun index => Territory.Ends.of_revise rfl (beside index) (ends index)⟩

end

end Corpus

end Emend
